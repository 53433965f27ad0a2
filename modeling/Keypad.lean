import Keypad.Main
import Keypad.Proofs.Binary64.Canonical
import Keypad.Proofs.Binary64.RoundTrip
import Keypad.Proofs.Calculator.Agreement
import Keypad.Proofs.Calculator.CarriedOver
import Keypad.Proofs.Calculator.Equals
import Keypad.Proofs.Calculator.Negation
import Keypad.Proofs.Calculator.Repeated
import Keypad.Proofs.Calculator.Transforms
import Keypad.Proofs.Calculator.Unread
import Keypad.Proofs.Calculator.UpperLine
import Keypad.Proofs.CommandLine.Answer
import Keypad.Proofs.Expression.Alternation
import Keypad.Proofs.Expression.Edits
import Keypad.Proofs.Expression.Operation
import Keypad.Proofs.Expression.Terms
import Keypad.Proofs.Key.Composition
import Keypad.Proofs.Key.Layout
import Keypad.Proofs.Key.Unknown
