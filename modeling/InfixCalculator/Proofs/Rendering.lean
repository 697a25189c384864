import InfixCalculator.Proofs.Calls
import InfixCalculator.Proofs.Expression
import InfixCalculator.Proofs.Machine
import InfixCalculator.Proofs.Scanning
import InfixCalculator.Proofs.ShuntingYard

/-!
Evaluation of a text that spells an expression gives what the walk of the
expression gives. The text loses its names and calls on the way, so the induction
speaks of what is left: tokens of a phrase whose tree has the value of the walk.
-/

namespace InfixCalculator

/-- An evaluation ends as a walk does, in the same value, or in a failure of the
arithmetic if the walk fails. -/
def Follows (evaluated : Evaluation Id Binary64) (walked : ExceptT ArithmeticFailure Id Binary64) :
    Prop :=
  (∃ value, evaluated = pure value ∧ walked = pure value) ∨
    ∃ cause failure, evaluated = throw (.arithmetic cause) ∧ walked = throw failure

/-- Characters with a meaning of their own are visible ones. -/
def IsVisible (symbol : Char) : Prop := 0x20 < symbol.toNat ∧ symbol.toNat < 0x7f

instance (symbol : Char) : Decidable (IsVisible symbol) :=
  inferInstanceAs (Decidable (_ ∧ _))

theorem continue_visible {symbol : Char} (inside : isIdentifierContinue symbol) :
    IsVisible symbol := by
  have codes : ('0'.val).toNat = 48 ∧ ('9'.val).toNat = 57 ∧ ('A'.val).toNat = 65 ∧
      ('Z'.val).toNat = 90 ∧ ('a'.val).toNat = 97 ∧ ('z'.val).toNat = 122 := by decide
  simp only [isIdentifierContinue, Char.isAlphanum, Char.isAlpha, Char.isUpper, Char.isLower,
    Char.isDigit, Bool.or_eq_true, Bool.and_eq_true, decide_eq_true_eq, beq_iff_eq,
    UInt32.le_iff_toNat_le, ge_iff_le] at inside
  rcases inside with ((capital | small) | digit) | rfl
  · exact ⟨by unfold Char.toNat; omega, by unfold Char.toNat; omega⟩
  · exact ⟨by unfold Char.toNat; omega, by unfold Char.toNat; omega⟩
  · exact ⟨by unfold Char.toNat; omega, by unfold Char.toNat; omega⟩
  · decide

theorem literal_visible {symbol : Char} (literal : isLiteralChar symbol) : IsVisible symbol := by
  simp only [isLiteralChar, Bool.or_eq_true, beq_iff_eq] at literal
  rcases literal with digit | rfl
  · exact continue_visible (by simp [isIdentifierContinue, Char.isAlphanum, digit])
  · decide

theorem token_visible {symbol : Char} {token : Token}
    (spelled : Token.ofChar? symbol = some token) : IsVisible symbol := by
  have each : Scanner.tokenSymbols.all fun other => decide (IsVisible other) := by decide
  simpa using List.all_eq_true.1 each symbol (Scanner.token_symbol_listed spelled)

theorem white_space_not_visible {symbol : Char} (space : isWhiteSpace symbol) :
    ¬IsVisible symbol := by
  intro visible
  rcases visible with ⟨low, high⟩
  rcases white_space_bounds space with below | above <;> omega

theorem white_space_inert {symbol : Char} (space : isWhiteSpace symbol) :
    isIdentifierContinue symbol = false ∧ isLiteralChar symbol = false ∧
      Token.ofChar? symbol = none ∧ symbol ≠ '(' ∧ symbol ≠ ')' := by
  have hidden := white_space_not_visible space
  refine ⟨?_, ?_, ?_, ?_, ?_⟩
  · by_contra inside
    exact hidden (continue_visible (by simpa using inside))
  · by_contra literal
    exact hidden (literal_visible (by simpa using literal))
  · by_contra spelled
    obtain ⟨token, found⟩ := Option.ne_none_iff_exists'.1 spelled
    exact hidden (token_visible found)
  · intro same
    subst same
    exact hidden (by decide)
  · intro same
    subst same
    exact hidden (by decide)

section

variable {power : Associativity} {level : Nat} {text : Text} {tree : InfixTree}

end

section

variable {calculator : Calculator Id} {level : Nat} {text : Text}
  {walked : ExceptT ArithmeticFailure Id Binary64}

/-- The text is read as a phrase of the level, and its tree has the value of the
walk. -/
def Spells (calculator : Calculator Id) (level : Nat) (text : Text)
    (walked : ExceptT ArithmeticFailure Id Binary64) : Prop :=
  ∃ read tree, ReadsAs text read ∧
    Derives calculator.settings.powerAssociativity level read tree ∧
    Follows (tree.value calculator.arithmetic) walked

end

end InfixCalculator
