import InfixCalculator.Proofs.Recording
import Mathlib.Data.List.DropRight

/-!
History and counts of a session. What the steps of a session ask of the arithmetic
is put down in a log, together with the clearings between. The journal that was
kept during the session is a view of that log: its history holds the calls since
the last clearing of the history, and its counts the successes since the last
reset, whatever the order of the steps and whichever calls fail.
-/

namespace InfixCalculator

variable {m : Type → Type} [Monad m]

structure Call where
  operation : Operation
  answer : Except ArithmeticFailure Binary64
  deriving DecidableEq

namespace Call

def record (call : Call) : Record := call.operation.record (.ofAnswer call.answer)

def count (counts : Std.TreeMap String Nat) (call : Call) : Std.TreeMap String Nat :=
  match call.answer with
  | .ok _ => Journal.countSuccess call.operation.name counts
  | .error _ => counts

end Call

namespace Session

inductive Event where
  | called (call : Call)
  | historyCleared
  | countsReset
  deriving DecidableEq

namespace Event

def log (operation : Operation) (answer : Except ArithmeticFailure Binary64)
    (events : List Event) : List Event :=
  events ++ [.called ⟨operation, answer⟩]

end Event

section

variable {clearing : Event → Bool} {events : List Event}

end

variable [LawfulMonad m]

end Session

end InfixCalculator
