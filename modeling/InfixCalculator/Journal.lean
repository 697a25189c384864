import InfixCalculator.Arithmetic
import Std.Data.TreeMap

/-!
A journal of operations. Recording leaves every answer as it is, notes each
operation in the order of the calls, refusals included, and counts the successes
by name. History and counts are cleared independently.
-/

namespace InfixCalculator

inductive Outcome where
  | value (result : Binary64)
  | refusal (message : String)
  deriving DecidableEq

def Outcome.ofAnswer : Except ArithmeticFailure Binary64 → Outcome
  | .ok result => .value result
  | .error cause => .refusal cause.message

structure Record where
  operation : String
  operands : List Binary64
  outcome : Outcome
  deriving DecidableEq

structure Journal where
  history : List Record
  counts : Std.TreeMap String Nat

namespace Journal

def empty : Journal := ⟨[], ∅⟩

instance : Inhabited Journal := ⟨empty⟩

def countSuccess (name : String) (counts : Std.TreeMap String Nat) : Std.TreeMap String Nat :=
  counts.insert name (counts.getD name 0 + 1)

def note (operation : Operation) (answer : Except ArithmeticFailure Binary64) (journal : Journal) :
    Journal where
  history := journal.history ++ [⟨operation.name, operation.operands, .ofAnswer answer⟩]
  counts := match answer with
    | .ok _ => countSuccess operation.name journal.counts
    | .error _ => journal.counts

def clearHistory (journal : Journal) : Journal := { journal with history := [] }

def resetCounts (journal : Journal) : Journal := { journal with counts := ∅ }

end Journal

def recording {m : Type → Type} [Monad m] (arithmetic : Arithmetic m) :
    Arithmetic (StateT Journal m) :=
  fun operation => ExceptT.mk do
    let answer ← StateT.lift (arithmetic operation).run
    modify (Journal.note operation answer)
    pure answer

end InfixCalculator
