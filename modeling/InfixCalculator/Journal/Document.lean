import InfixCalculator.Interchange

/-!
The history of a journal as a document of the interchange format.
-/

namespace InfixCalculator

namespace Journal

def historyText (writer : DocumentWriter) (journal : Journal) : Except String Text :=
  writer.history journal.history

end Journal

end InfixCalculator
