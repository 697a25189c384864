import InfixCalculator.Failure

/-!
Infix tokens into postfix order. Pending operators and open groups wait on a
stack; the numbers keep their order. Adjacency of operands and operators is not
looked at, so a token list that is no expression may still be arranged.
-/

namespace InfixCalculator

inductive Pending where
  | operator (kind : Operator)
  | group
  deriving DecidableEq, Repr

namespace Postfix

def releaseBefore (power : Associativity) (incoming : Operator) :
    List Pending → List Token × List Pending
  | .operator top :: stack =>
      if top.bindsBefore power incoming then
        let (released, kept) := releaseBefore power incoming stack
        (.operator top :: released, kept)
      else ([], .operator top :: stack)
  | stack => ([], stack)

def closeGroup : List Pending → Except TextFailure (List Token × List Pending)
  | [] => .error .unopenedGroup
  | .group :: stack => .ok ([], stack)
  | .operator top :: stack =>
      (closeGroup stack).map fun (released, kept) => (.operator top :: released, kept)

def releaseAll : List Pending → Except TextFailure (List Token)
  | [] => .ok []
  | .group :: _ => .error .unclosedGroup
  | .operator top :: stack => (releaseAll stack).map (.operator top :: ·)

def arrange (power : Associativity) : List Pending → List Token → Except TextFailure (List Token)
  | stack, [] => releaseAll stack
  | stack, .number value :: rest => (arrange power stack rest).map (.number value :: ·)
  | stack, .leftParen :: rest => arrange power (.group :: stack) rest
  | stack, .rightParen :: rest =>
      match closeGroup stack with
      | .error failure => .error failure
      | .ok (released, kept) => (arrange power kept rest).map (released ++ ·)
  | stack, .operator incoming :: rest =>
      let (released, kept) := releaseBefore power incoming stack
      (arrange power (.operator incoming :: kept) rest).map (released ++ ·)

end Postfix

def toPostfix (power : Associativity) (tokens : List Token) : Except TextFailure (List Token) :=
  Postfix.arrange power [] tokens

end InfixCalculator
