import InfixCalculator.Calculator
import InfixCalculator.Proofs.Constants

/-!
The pass that puts results in place of calls, piece by piece, and evaluation as
the sequence of both passes and the infix evaluation of what they leave.
-/

namespace InfixCalculator

variable {m : Type → Type} [Monad m]

/-- The result of a call. The name is looked at before the argument. -/
def callValue (arithmetic : Arithmetic m) (evaluate : Text → Evaluation m Binary64)
    (identifier argument : Text) : Evaluation m Binary64 := do
  let function ← resolveFunction identifier
  let operand ← evaluate argument
  arithmetic.perform (.unary function operand)

theorem function_name_identifier {name : Text} {function : NamedFunction}
    (known : NamedFunction.ofName? name = some function) : IsIdentifier name := by
  have spelled := List.find?_some known
  simp only [decide_eq_true_eq] at spelled
  rcases spelled with rfl | other
  · cases function <;> decide
  · cases function with
    | decimalLogarithm =>
        cases other
        decide
    | _ => contradiction

def resolvePiece (arithmetic : Arithmetic m) (evaluate : Text → Evaluation m Binary64) :
    Fragment → Evaluation m Text
  | .call identifier _ argument => do
      let value ← callValue arithmetic evaluate identifier argument
      pure (splice value)
  | fragment => pure fragment.source

def resolvePieces (arithmetic : Arithmetic m) (evaluate : Text → Evaluation m Binary64) :
    List Fragment → Evaluation m Text
  | [] => pure []
  | piece :: rest => do
      let front ← resolvePiece arithmetic evaluate piece
      let others ← resolvePieces arithmetic evaluate rest
      pure (front ++ others)

section

variable [LawfulMonad m] (arithmetic : Arithmetic m) (evaluate : Text → Evaluation m Binary64)

theorem resolve_pieces_append (first second : List Fragment) :
    resolvePieces arithmetic evaluate (first ++ second) = (do
      let front ← resolvePieces arithmetic evaluate first
      let others ← resolvePieces arithmetic evaluate second
      pure (front ++ others)) := by
  induction first with
  | nil => simp [resolvePieces]
  | cons piece first induction =>
      rw [List.cons_append, resolvePieces, induction]
      simp only [resolvePieces, bind_assoc, pure_bind, List.append_assoc]

theorem resolve_pieces_plain (text : Text) :
    resolvePieces arithmetic evaluate (text.map fun symbol => .plain [symbol]) = pure text := by
  induction text with
  | nil => rfl
  | cons symbol text induction =>
      rw [List.map_cons, resolvePieces, induction]
      simp [resolvePiece, Fragment.source]

theorem resolve_pieces_symbol (symbol : Char) (pieces : List Fragment) :
    resolvePieces arithmetic evaluate (.plain [symbol] :: pieces) = (do
      let resolved ← resolvePieces arithmetic evaluate pieces
      pure (symbol :: resolved)) := by
  simp [resolvePieces, resolvePiece, Fragment.source]

theorem resolve_pieces_last_symbol (pieces : List Fragment) (symbol : Char) :
    resolvePieces arithmetic evaluate (pieces ++ [.plain [symbol]]) = (do
      let resolved ← resolvePieces arithmetic evaluate pieces
      pure (resolved ++ [symbol])) := by
  rw [resolve_pieces_append, resolve_pieces_symbol]
  simp [resolvePieces]

theorem resolve_pieces_group (pieces : List Fragment) :
    resolvePieces arithmetic evaluate (.plain ['('] :: (pieces ++ [.plain [')']])) = (do
      let resolved ← resolvePieces arithmetic evaluate pieces
      pure ('(' :: resolved ++ [')'])) := by
  rw [resolve_pieces_symbol, resolve_pieces_last_symbol]
  simp

theorem resolve_pieces_call (identifier gap argument : Text) :
    resolvePieces arithmetic evaluate [.call identifier gap argument] = (do
      let value ← callValue arithmetic evaluate identifier argument
      pure (splice value)) := by
  simp [resolvePieces, resolvePiece]

theorem call_value_known {identifier : Text} {function : NamedFunction}
    (known : NamedFunction.ofName? identifier = some function) (argument : Text) :
    callValue arithmetic evaluate identifier argument = (do
      let operand ← evaluate argument
      arithmetic.perform (.unary function operand)) := by
  simp only [callValue, resolveFunction, known, pure_bind]

theorem splice_calls_cons (fragment : Fragment) (fragments : List Fragment) :
    spliceCalls arithmetic (fragment :: fragments) (fun _ _ argument _ => evaluate argument) = (do
      let front ← resolvePiece arithmetic evaluate fragment
      let others ← spliceCalls arithmetic fragments fun _ _ argument _ => evaluate argument
      pure (front ++ others)) := by
  cases fragment with
  | plain source => simp [spliceCalls, resolvePiece]
  | name identifier => simp [spliceCalls, resolvePiece]
  | call identifier gap argument => simp [spliceCalls, resolvePiece, callValue]

theorem splice_calls_pieces (fragments : List Fragment) :
    spliceCalls arithmetic fragments (fun _ _ argument _ => evaluate argument) =
      resolvePieces arithmetic evaluate (fragments.flatMap Fragment.pieces) := by
  induction fragments with
  | nil => rfl
  | cons fragment fragments induction =>
      rw [splice_calls_cons, induction, List.flatMap_cons, resolve_pieces_append]
      congr 1
      cases fragment with
      | plain source => exact (resolve_pieces_plain arithmetic evaluate source).symm
      | name identifier => simp [Fragment.pieces, resolvePieces, resolvePiece]
      | call identifier gap argument => simp [Fragment.pieces, resolvePieces]

theorem substitute_functions_pieces {text : Text} {pieces : List Fragment}
    (cut : Cuts text pieces) :
    substituteFunctions arithmetic evaluate text = resolvePieces arithmetic evaluate pieces := by
  obtain ⟨fragments, split, rfl⟩ := exists_of_map_ok (split_pieces_of_cuts cut)
  rw [substituteFunctions, split, lift_text_ok_bind]
  exact splice_calls_pieces arithmetic evaluate fragments

end

theorem resolve_pieces_congr {first second : Arithmetic m}
    {one other : Text → Evaluation m Binary64}
    {pieces : List Fragment} (same : ∀ identifier gap argument,
      .call identifier gap argument ∈ pieces →
        callValue first one identifier argument = callValue second other identifier argument) :
    resolvePieces first one pieces = resolvePieces second other pieces := by
  induction pieces with
  | nil => rfl
  | cons piece pieces induction =>
      have later := induction fun identifier gap argument member =>
        same identifier gap argument (List.mem_cons_of_mem _ member)
      have own : resolvePiece first one piece = resolvePiece second other piece := by
        cases piece with
        | plain source => rfl
        | name identifier => rfl
        | call identifier gap argument =>
            simp only [resolvePiece]
            rw [same identifier gap argument List.mem_cons_self]
      rw [resolvePieces, resolvePieces, own, later]

theorem bounded_result_finite {elementary : Elementary} (assured : elementary.IsFiniteOnDomain)
    {tolerance : Binary64} {operation : Operation} (bounded : operation.isBounded)
    (inside : operation.leavesDomain tolerance = false) :
    Binary64.isFinite (elementary.apply operation) := by
  cases operation with
  | binary => contradiction
  | unary function argument =>
      cases function with
      | arcSine =>
          simp only [Operation.leavesDomain, Bool.not_eq_false', Bool.and_eq_true,
            decide_eq_true_eq] at inside
          exact assured.arcSine argument inside.1 inside.2
      | arcCosine =>
          simp only [Operation.leavesDomain, Bool.not_eq_false', Bool.and_eq_true,
            decide_eq_true_eq] at inside
          exact assured.arcCosine argument inside.1 inside.2
      | _ => contradiction

/-- Results of the standard arithmetic are finite: most are checked, and the
inverse functions are finite on their domain. -/
theorem standard_result_finite {elementary : Elementary} (assured : elementary.IsFiniteOnDomain)
    {tolerance value : Binary64} {operation : Operation}
    (answered : standardArithmetic elementary tolerance operation = pure value) :
    Binary64.isFinite value := by
  simp only [standardArithmetic] at answered
  split at answered
  · exact absurd answered (throw_ne_pure _ _)
  · split at answered
    · exact absurd answered (throw_ne_pure _ _)
    · rename_i inside
      split at answered
      · rename_i accepted
        obtain rfl : elementary.apply operation = value := Except.ok.inj answered
        by_cases bounded : operation.isBounded
        · exact bounded_result_finite assured bounded (by simpa using inside)
        · simpa [bounded] using accepted
      · exact absurd answered (throw_ne_pure _ _)

/-- A table for examples, in which every function is zero everywhere. -/
def Elementary.vanishing : Elementary where
  sine _ := 0
  cosine _ := 0
  tangent _ := 0
  arcSine _ := 0
  arcCosine _ := 0
  arcTangent _ := 0
  decimalLogarithm _ := 0
  naturalLogarithm _ := 0
  exponential _ := 0
  power _ _ := 0

theorem vanishing_finite_on_domain : Elementary.vanishing.IsFiniteOnDomain := by
  have zero : Binary64.isFinite 0 := by decide +kernel
  exact ⟨fun _ _ _ => zero, fun _ _ _ => zero⟩

theorem standard_finite_constants : Settings.standard.HasFiniteConstants :=
  ⟨by decide +kernel, by decide +kernel⟩

theorem perform_eq_pure {arithmetic : Arithmetic Id} {operation : Operation} {value : Binary64}
    (answered : arithmetic operation = pure value) :
    arithmetic.perform operation = pure value := by
  rw [Arithmetic.perform, answered]
  rfl

namespace Calculator

def checked (elementary : Elementary) (tolerance : Binary64) (settings : Settings) :
    Calculator Id where
  arithmetic := standardArithmetic elementary tolerance
  settings := settings

variable [LawfulMonad m] (calculator : Calculator m)

/-- Evaluation of a text that is cut, and cut again with constants in place. -/
theorem evaluate_text_of_passes {text : Text} {pieces others : List Fragment}
    (passes : Passes calculator.settings text pieces others) :
    calculator.evaluateText text = (do
      let resolved ← resolvePieces calculator.arithmetic calculator.evaluateText others
      calculator.evaluateInfix resolved) := by
  rw [evaluate_text_eq, substitute_constants_pieces, split_pieces_of_cuts passes.cut]
  simp only [Except.map]
  rw [lift_text_ok_bind, substitute_functions_pieces _ _ passes.again]

theorem evaluate_text_of_error {text : Text} {cause : TextFailure}
    (failed : splitPieces text = .error cause) :
    calculator.evaluateText text = throw (.text cause) := by
  rw [evaluate_text_eq, substitute_constants_pieces, failed]
  exact lift_text_error_bind cause _

theorem evaluate_text_of_open_call {text : Text} {pieces : List Fragment} {cause : TextFailure}
    (cut : Cuts text pieces)
    (failed : splitPieces (valued calculator.settings pieces) = .error cause) :
    calculator.evaluateText text = throw (.text cause) := by
  rw [evaluate_text_eq, substitute_constants_pieces, split_pieces_of_cuts cut]
  simp only [Except.map, substituteFunctions]
  rw [lift_text_ok_bind, error_of_map_error failed, lift_text_error_bind, throw_evaluation_bind]

end Calculator

end InfixCalculator
