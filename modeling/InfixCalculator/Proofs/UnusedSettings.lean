import InfixCalculator.Proofs.Identifiers

/-!
Settings that an expression makes no use of. A constant is looked up where its name
stands, the tangent tolerance where the tangent is called, and the grouping of powers
takes two powers to show. Evaluation rewrites the text on its way and hands parts of it
on, but never adds a name of a setting or a power. So settings that differ only in what
the text has no use for give the same result.
-/

namespace InfixCalculator

open Scanner

/-- The settings differ at most in what the text makes no use of. -/
structure Settings.AgreeOn (text : Text) (first second : Settings) : Prop where
  pi : first.pi = second.pi ∨
    "pi".toList ∉ identifiers text ∧ "PI".toList ∉ identifiers text
  e : first.e = second.e ∨ "e".toList ∉ identifiers text ∧ "E".toList ∉ identifiers text
  power : first.powerAssociativity = second.powerAssociativity ∨ text.count '^' < 2
  tolerance : first.tangentTolerance = second.tangentTolerance ∨
    "tan".toList ∉ identifiers text

/-- Text that another one gives rise to: it names nothing new but the words for values,
and has no more powers. -/
structure ComesFrom (inner text : Text) : Prop where
  names : ∀ name ∈ identifiers inner, name ∈ valueWords ∨ name ∈ identifiers text
  powers : inner.count '^' ≤ text.count '^'

theorem ComesFrom.trans {inner middle text : Text} (first : ComesFrom inner middle)
    (second : ComesFrom middle text) : ComesFrom inner text where
  names name named := (first.names name named).elim .inl (second.names name)
  powers := first.powers.trans second.powers

theorem Settings.AgreeOn.within {text inner : Text} {first second : Settings}
    (agree : AgreeOn text first second) (origin : ComesFrom inner text) :
    AgreeOn inner first second := by
  have absent {name : Text} (unnamed : name ∉ identifiers text) (other : name ∉ valueWords) :
      name ∉ identifiers inner := by
    intro named
    exact (origin.names name named).elim other unnamed
  constructor
  · exact agree.pi.imp id fun unused =>
      ⟨absent unused.1 (by decide), absent unused.2 (by decide)⟩
  · exact agree.e.imp id fun unused =>
      ⟨absent unused.1 (by decide), absent unused.2 (by decide)⟩
  · exact agree.power.imp id fun few => Nat.lt_of_le_of_lt origin.powers few
  · exact agree.tolerance.imp id fun unused => absent unused (by decide)

section

variable {first second : Settings} {text : Text} {pieces : List Fragment}

theorem constant_agreed (agree : Settings.AgreeOn text first second) {name : Text}
    (named : name ∈ identifiers text) : first.constant? name = second.constant? name := by
  unfold Settings.constant?
  split
  · rename_i spelled
    rcases agree.pi with same | ⟨small, capital⟩
    · rw [same]
    · rcases spelled with rfl | rfl
      · exact absurd named small
      · exact absurd named capital
  · split
    · rename_i spelled
      rcases agree.e with same | ⟨small, capital⟩
      · rw [same]
      · rcases spelled with rfl | rfl
        · exact absurd named small
        · exact absurd named capital
    · rfl

theorem valued_agreed (agree : Settings.AgreeOn text first second) (cut : Cuts text pieces) :
    valued first pieces = valued second pieces := by
  have named : ∀ piece ∈ pieces, ∀ name ∈ piece.identifiers, name ∈ identifiers text := by
    intro piece member name own
    rw [identifiers_of_pieces cut]
    exact List.mem_flatMap.2 ⟨piece, member, own⟩
  clear cut
  induction pieces with
  | nil => rfl
  | cons piece pieces induction =>
      rw [valued_cons, valued_cons, induction fun other member =>
        named other (List.mem_cons_of_mem _ member)]
      congr 1
      cases piece with
      | plain source => rfl
      | call identifier gap argument => rfl
      | name identifier =>
          have own := named _ List.mem_cons_self identifier (List.mem_singleton.2 rfl)
          simp only [Fragment.withConstants, constant_agreed agree own]

theorem splice_powerless (value : Binary64) : (splice value).count '^' = 0 := by
  have shown : '^' ∉ Binary64.display value := by
    cases finite : Binary64.isFinite value with
    | true =>
        intro member
        rcases display_symbols finite _ member with same | literal <;> contradiction
    | false =>
        have form := splice_nonfinite_forms finite
        intro member
        have spliced : '^' ∈ splice value := by
          rcases splice_cases value with ⟨-, shape⟩ | ⟨-, shape⟩ <;> simp [shape, member]
        rcases form with form | form | form | form <;>
        · rw [form] at spliced
          contradiction
  apply List.count_eq_zero.2
  rcases splice_cases value with ⟨-, form⟩ | ⟨-, form⟩ <;> simp [form, shown]

theorem valued_powers (settings : Settings) (pieces : List Fragment) :
    (valued settings pieces).count '^' ≤ (pieces.flatMap Fragment.source).count '^' := by
  induction pieces with
  | nil => exact Nat.le_refl _
  | cons piece pieces induction =>
      have own : (piece.withConstants settings).count '^' ≤ piece.source.count '^' := by
        cases piece with
        | plain source => exact Nat.le_refl _
        | call identifier gap argument => exact Nat.le_refl _
        | name identifier =>
            cases known : settings.constant? identifier with
            | none => exact Nat.le_of_eq (by rw [unknown_with_constants known]; rfl)
            | some value =>
                rw [constant_with_constants known, splice_powerless]
                exact Nat.zero_le _
      rw [valued_cons, List.flatMap_cons, List.count_append, List.count_append]
      exact Nat.add_le_add own induction

theorem valued_comes_from (settings : Settings) (cut : Cuts text pieces) :
    ComesFrom (valued settings pieces) text where
  names _ named := valued_identifiers cut named
  powers := by
    have bound := valued_powers settings pieces
    rwa [cuts_whole cut] at bound

theorem argument_comes_from {identifier gap argument : Text} (cut : Cuts text pieces)
    (member : .call identifier gap argument ∈ pieces) : ComesFrom argument text where
  names name named := .inr ((identifiers_of_call cut member).2.1 name named)
  powers := by
    obtain ⟨before, behind, rfl⟩ := List.append_of_mem member
    rw [← cuts_whole cut]
    simp only [List.flatMap_append, List.flatMap_cons, Fragment.source, List.count_append,
      List.count_cons]
    omega

theorem resolved_powers {arithmetic : Arithmetic Id} {evaluate : Text → Evaluation Id Binary64}
    {resolved : Text} (results : resolvePieces arithmetic evaluate pieces = pure resolved) :
    resolved.count '^' ≤ (pieces.flatMap Fragment.source).count '^' := by
  induction pieces generalizing resolved with
  | nil =>
      obtain rfl := pure_answer_inj results
      exact Nat.le_refl _
  | cons piece pieces induction =>
      obtain ⟨front, own, later⟩ := exists_of_bind_pure results
      obtain ⟨behind, others, whole⟩ := exists_of_bind_pure later
      obtain rfl := pure_answer_inj whole
      have bound : front.count '^' ≤ piece.source.count '^' := by
        cases piece with
        | plain source =>
            obtain rfl := pure_answer_inj own
            exact Nat.le_refl _
        | name identifier =>
            obtain rfl := pure_answer_inj own
            exact Nat.le_refl _
        | call identifier gap argument =>
            obtain ⟨value, -, spliced⟩ := exists_of_bind_pure own
            obtain rfl := pure_answer_inj spliced
            rw [splice_powerless]
            exact Nat.zero_le _
      rw [List.flatMap_cons, List.count_append, List.count_append]
      exact Nat.add_le_add bound (induction others)

end

theorem symbol_of_operator {symbol : Char} {kind : Operator}
    (spelled : Token.ofChar? symbol = some (.operator kind)) : symbol = kind.symbol := by
  have found : Operator.ofChar? symbol = some kind := by
    simp only [Token.ofChar?] at spelled
    split at spelled
    · simp at spelled
    · split at spelled
      · simp at spelled
      · simpa using spelled
  unfold Operator.ofChar? at found
  split at found <;> cases found <;> rfl

/-- Operators are read off symbols of their own. -/
theorem tokens_powers {previous : Option Token} {text : Text} {read : List Token}
    (scanned : tokens previous text = .ok read) :
    (read.filterMap Token.operator?).count .power ≤ text.count '^' := by
  induction previous, text using scanning_induction generalizing read with
  | empty previous =>
      rw [tokens_empty] at scanned
      cases scanned
      exact Nat.le_refl _
  | literal previous negative run rest filled literal apart signed induction =>
      have reading := read_next_literal filled literal apart signed
      rcases literal_reading_cases negative run with ⟨value, token⟩ | ⟨shown, malformed⟩
      · rw [tokens_of_token (token ▸ reading)] at scanned
        obtain ⟨others, found, rfl⟩ := exists_of_map_ok scanned
        rw [List.count_append]
        exact (induction (some (.number value)) found).trans (Nat.le_add_left ..)
      · rw [tokens_of_malformed (malformed ▸ reading)] at scanned
        contradiction
  | symbol previous symbol token rest spelled unsigned induction =>
      rw [tokens_of_token (read_next_symbol spelled unsigned)] at scanned
      obtain ⟨others, found, rfl⟩ := exists_of_map_ok scanned
      have later := induction found
      rcases token_of_char_cases spelled with ⟨rfl, rfl⟩ | ⟨rfl, rfl⟩ | ⟨-, kind, rfl⟩
      · exact later.trans List.count_le_count_cons
      · exact later.trans List.count_le_count_cons
      · obtain rfl := symbol_of_operator spelled
        cases kind <;> simpa [Token.operator?, Operator.symbol] using later
  | inert previous symbol rest inert other induction =>
      rw [tokens_inert inert other] at scanned
      exact (induction scanned).trans List.count_le_count_cons

namespace Postfix

theorem binds_before_agreed {top incoming : Operator} (first second : Associativity)
    (other : top ≠ .power ∨ incoming ≠ .power) :
    top.bindsBefore first incoming = top.bindsBefore second incoming := by
  revert other
  cases top <;> cases incoming <;> cases first <;> cases second <;> decide

/-- A power that comes in meets no other power. -/
theorem release_before_agreed {incoming : Operator} {stack : List Pending}
    (first second : Associativity)
    (single : incoming = .power → .power ∉ stack.filterMap Pending.operator?) :
    releaseBefore first incoming stack = releaseBefore second incoming stack := by
  induction stack with
  | nil => rfl
  | cons pending stack induction =>
      cases pending with
      | group => rfl
      | operator top =>
          have other : top ≠ .power ∨ incoming ≠ .power := by
            by_cases incomes : incoming = .power
            · exact .inl fun same => single incomes (by simp [Pending.operator?, same])
            · exact .inr incomes
          have below : incoming = .power → .power ∉ stack.filterMap Pending.operator? := by
            intro incomes member
            exact single incomes (by simp [Pending.operator?, member])
          simp only [releaseBefore]
          rw [binds_before_agreed first second other, induction below]

/-- With at most one power its grouping does not matter, whatever the tokens are. -/
theorem arrange_agreed {stack : List Pending} {tokens : List Token}
    (first second : Associativity)
    (few : (stack.filterMap Pending.operator?).count .power +
      (tokens.filterMap Token.operator?).count .power < 2) :
    arrange first stack tokens = arrange second stack tokens := by
  induction tokens generalizing stack with
  | nil => rfl
  | cons token rest induction =>
      cases token with
      | number value =>
          simp only [arrange]
          rw [induction few]
      | leftParen => exact induction few
      | rightParen =>
          simp only [arrange]
          cases closed : closeGroup stack with
          | error cause => rfl
          | ok answer =>
              have kept := congrArg (List.count .power) (close_group_releases closed).operators
              rw [List.count_append] at kept
              have within : (answer.2.filterMap Pending.operator?).count .power +
                  (rest.filterMap Token.operator?).count .power < 2 := by
                simp only [List.filterMap_cons, Token.operator?] at few
                omega
              simp only
              rw [induction within]
      | operator incoming =>
          have single : incoming = .power → .power ∉ stack.filterMap Pending.operator? := by
            intro incomes
            apply List.count_eq_zero.1
            simp only [List.filterMap_cons, Token.operator?, incomes, List.count_cons_self] at few
            omega
          have released := release_before_agreed first second single
          have kept := congrArg (List.count .power)
            (release_before_releases second incoming stack).operators
          rw [List.count_append] at kept
          simp only [arrange]
          rw [released, induction]
          simp only [List.filterMap_cons, Token.operator?, Pending.operator?, List.count_cons]
            at few ⊢
          omega

end Postfix

/-- The machine asks for operations on two operands only. -/
theorem run_agreed {first second : Arithmetic Id}
    (same : ∀ operator left right,
      first.perform (.binary operator left right) = second.perform (.binary operator left right))
    (stack : List Binary64) (tokens : List Token) :
    StackMachine.run first stack tokens = StackMachine.run second stack tokens := by
  induction tokens generalizing stack with
  | nil => simp only [StackMachine.run]
  | cons token rest induction =>
      cases token with
      | number value => exact induction (value :: stack)
      | leftParen => simp only [StackMachine.run]
      | rightParen => simp only [StackMachine.run]
      | operator operator =>
          cases stack with
          | nil => rfl
          | cons right stack =>
              cases stack with
              | nil => rfl
              | cons left stack =>
                  simp only [StackMachine.run]
                  rw [same]
                  congr 1
                  funext value
                  exact induction (value :: stack)

theorem perform_without_tangent (elementary : Elementary) (first second : Binary64)
    {operation : Operation} (other : ∀ angle, operation ≠ .unary .tangent angle) :
    (standardArithmetic elementary first).perform operation =
      (standardArithmetic elementary second).perform operation := by
  have inside : operation.leavesDomain first = operation.leavesDomain second := by
    cases operation with
    | binary operator left right => rfl
    | unary function argument =>
        cases function with
        | tangent => exact absurd rfl (other argument)
        | _ => rfl
  simp only [Arithmetic.perform, standardArithmetic, inside]

theorem tangent_name {name : Text} (known : NamedFunction.ofName? name = some .tangent) :
    name = "tan".toList := by
  have spelled := List.find?_some known
  simpa [NamedFunction.name, NamedFunction.alias?] using spelled

section

variable (elementary : Elementary) {first second : Settings} {text : Text}

theorem evaluate_infix_agreed (agree : Settings.AgreeOn text first second) {resolved : Text}
    (powers : resolved.count '^' ≤ text.count '^') :
    (Calculator.standard elementary first).evaluateInfix resolved =
      (Calculator.standard elementary second).evaluateInfix resolved := by
  have performed (operator : Operator) (left right : Binary64) :=
    @perform_without_tangent elementary first.tangentTolerance second.tangentTolerance
      (.binary operator left right) nofun
  simp only [Calculator.evaluateInfix]
  cases scanned : tokenize resolved with
  | error cause => rw [lift_text_error_bind, lift_text_error_bind]
  | ok read =>
      have arranged : toPostfix first.powerAssociativity read =
          toPostfix second.powerAssociativity read := by
        rcases agree.power with same | few
        · rw [same]
        · apply Postfix.arrange_agreed
          have counted := tokens_powers scanned
          simp only [List.filterMap_nil, List.count_nil]
          omega
      rw [lift_text_ok_bind, lift_text_ok_bind]
      simp only [Calculator.standard, arranged]
      congr 1
      funext tokens
      exact run_agreed performed [] tokens

theorem call_value_agreed (agree : Settings.AgreeOn text first second)
    {identifier argument : Text} (named : identifier ∈ identifiers text)
    (same : (Calculator.standard elementary first).evaluateText argument =
      (Calculator.standard elementary second).evaluateText argument) :
    callValue (standardArithmetic elementary first.tangentTolerance)
        (Calculator.standard elementary first).evaluateText identifier argument =
      callValue (standardArithmetic elementary second.tangentTolerance)
        (Calculator.standard elementary second).evaluateText identifier argument := by
  simp only [callValue, same]
  cases known : NamedFunction.ofName? identifier with
  | none => simp only [resolveFunction, known, throw_evaluation_bind]
  | some function =>
      simp only [resolveFunction, known, pure_bind]
      congr 1
      funext operand
      rcases agree.tolerance with equal | unused
      · rw [equal]
      · apply perform_without_tangent
        intro angle asked
        injection asked with tangent
        subst tangent
        rw [tangent_name known] at named
        exact unused named

theorem resolve_pieces_agreed (agree : Settings.AgreeOn text first second) {inner : Text}
    {pieces : List Fragment} (cut : Cuts inner pieces) (origin : ComesFrom inner text)
    (fewer : (identifiers inner).length ≤ (identifiers text).length)
    (induction : ∀ argument, (identifiers argument).length < (identifiers text).length →
      Settings.AgreeOn argument first second →
        (Calculator.standard elementary first).evaluateText argument =
          (Calculator.standard elementary second).evaluateText argument) :
    resolvePieces (Calculator.standard elementary first).arithmetic
        (Calculator.standard elementary first).evaluateText pieces =
      resolvePieces (Calculator.standard elementary second).arithmetic
        (Calculator.standard elementary second).evaluateText pieces := by
  apply resolve_pieces_congr
  intro identifier gap argument member
  have inside := identifiers_of_call cut member
  have handed := argument_comes_from cut member
  apply call_value_agreed elementary (agree.within origin) inside.1
  apply induction argument (inside.2.2.trans_le fewer)
  exact agree.within (handed.trans origin)

/-- Settings that agree as far as the text can tell give it the same result, by induction
on the number of its identifiers. -/
theorem evaluate_text_agreed (agree : Settings.AgreeOn text first second) :
    (Calculator.standard elementary first).evaluateText text =
      (Calculator.standard elementary second).evaluateText text := by
  induction count : (identifiers text).length using Nat.strong_induction_on
    generalizing text with
  | _ size induction =>
      subst count
      cases split : splitPieces text with
      | error cause =>
          rw [Calculator.evaluate_text_of_error _ split, Calculator.evaluate_text_of_error _ split]
      | ok pieces =>
          have cut := cuts_iff.2 split
          have origin := valued_comes_from second cut
          have same := valued_agreed agree cut
          have fewer : (identifiers (valued second pieces)).length ≤ (identifiers text).length := by
            have written : substituteConstants second text = .ok (valued second pieces) := by
              rw [substitute_constants_pieces, split]
              rfl
            rw [identifiers_length, identifiers_length]
            exact substitute_constants_count_le written
          cases again : splitPieces (valued second pieces) with
          | error cause =>
              have failed : splitPieces (valued first pieces) = .error cause := same ▸ again
              rw [Calculator.evaluate_text_of_open_call (.standard elementary first) cut failed,
                Calculator.evaluate_text_of_open_call (.standard elementary second) cut again]
          | ok others =>
              have cutAgain := cuts_iff.2 again
              have passes : Passes first text pieces others := ⟨cut, same ▸ cutAgain⟩
              have results := resolve_pieces_agreed elementary agree cutAgain origin fewer
                fun argument smaller within => induction _ smaller within rfl
              rw [Calculator.evaluate_text_of_passes (.standard elementary first) passes,
                Calculator.evaluate_text_of_passes (.standard elementary second) ⟨cut, cutAgain⟩,
                results]
              rcases answer_cases (resolvePieces (Calculator.standard elementary second).arithmetic
                (Calculator.standard elementary second).evaluateText others) with
                ⟨resolved, found⟩ | ⟨cause, failed⟩
              · rw [found, pure_bind, pure_bind]
                have powers := resolved_powers found
                rw [cuts_whole cutAgain] at powers
                exact evaluate_infix_agreed elementary agree (powers.trans origin.powers)
              · rw [failed, throw_evaluation_bind, throw_evaluation_bind]

/-- A setting matters only to expressions that use it. -/
theorem evaluate_under_unused_settings (elementary : Elementary) {first second : Settings}
    {expression : String} (agree : Settings.AgreeOn expression.toList first second) :
    (Calculator.standard elementary first).evaluate expression =
      (Calculator.standard elementary second).evaluate expression :=
  evaluate_text_agreed elementary agree

end

def foreignSettings : Settings where
  pi := -3
  e := Binary64.notANumber true
  powerAssociativity := .right
  tangentTolerance := 2

/-- The names `pi2`, `exp` and `e2` only look like names of settings, and there is one power. -/
theorem evaluate_under_unused_settings_of_similar_names :
    Settings.AgreeOn "abs(pi2*3-exp(e2))-2^2".toList .standard foreignSettings ∧
      (Calculator.standard .vanishing .standard).evaluate "abs(pi2*3-exp(e2))-2^2" = pure 6 ∧
      (Calculator.standard .vanishing foreignSettings).evaluate "abs(pi2*3-exp(e2))-2^2" =
        pure 6 := by
  have agree : Settings.AgreeOn "abs(pi2*3-exp(e2))-2^2".toList .standard foreignSettings :=
    ⟨.inr (by decide +kernel), .inr (by decide +kernel), .inr (by decide +kernel),
      .inr (by decide +kernel)⟩
  have result : (Calculator.standard .vanishing .standard).evaluate "abs(pi2*3-exp(e2))-2^2" =
      pure 6 := by
    change @Eq (Except EvaluationFailure Binary64) _ (.ok 6)
    decide +kernel
  exact ⟨agree, result, (evaluate_under_unused_settings .vanishing agree).symm.trans result⟩

end InfixCalculator
