/-!
Text as a list of Unicode scalar values. Inner layers work on this type; strings
appear where a caller hands text in and where a message is built.
-/

namespace InfixCalculator

abbrev Text := List Char

end InfixCalculator
