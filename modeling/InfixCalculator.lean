import InfixCalculator.Interchange.NativeReader
import InfixCalculator.Interchange.NativeWriter
import InfixCalculator.Journal.Document
import InfixCalculator.Numeric.Comparison
import InfixCalculator.Numeric.RoundTrip
import InfixCalculator.Session
import InfixCalculator.Settings.Document
import InfixCalculator.Proofs.InfixGrammar
import InfixCalculator.Proofs.ShuntingYard
import InfixCalculator.Proofs.Acceptance
import InfixCalculator.Proofs.Boundaries
import InfixCalculator.Proofs.Cutting
import InfixCalculator.Proofs.Splicing
import InfixCalculator.Proofs.Constants
import InfixCalculator.Proofs.Calls
import InfixCalculator.Proofs.Scanning
import InfixCalculator.Proofs.Machine
import InfixCalculator.Proofs.Replacement
import InfixCalculator.Proofs.Expression
import InfixCalculator.Proofs.Rendering
import InfixCalculator.Proofs.Spans
import InfixCalculator.Proofs.Spelling
import InfixCalculator.Proofs.Decomposition
import InfixCalculator.Proofs.EncodedText
import InfixCalculator.Proofs.Simulation
import InfixCalculator.Proofs.Recording
import InfixCalculator.Proofs.SessionHistory
import InfixCalculator.Proofs.Accounting
import InfixCalculator.Proofs.EvaluationOrder
import InfixCalculator.Proofs.Tolerance
import InfixCalculator.Proofs.Descent
import InfixCalculator.Proofs.Capture
import InfixCalculator.Proofs.Inert
import InfixCalculator.Proofs.Finiteness
import InfixCalculator.Proofs.Identifiers
import InfixCalculator.Proofs.UnusedSettings
import InfixCalculator.Proofs.Spacing
import InfixCalculator.Proofs.JsonGrammar
import InfixCalculator.Proofs.JsonReading
import InfixCalculator.Proofs.JsonAcceptance
import InfixCalculator.Proofs.InterchangeLaws
import InfixCalculator.Proofs.NativeInterchange
import InfixCalculator.Proofs.SettingsDocument
import InfixCalculator.Proofs.SettingsRoundTrip
import InfixCalculator.Proofs.Course
import InfixCalculator.Proofs.Rearrangement
import InfixCalculator.Proofs.Recovery
import InfixCalculator.Proofs.Refusals
import InfixCalculator.Proofs.CallSequence
import InfixCalculator.Proofs.Resubstitution
import InfixCalculator.Proofs.UnknownNames
import InfixCalculator.Proofs.HistoryRoundTrip
