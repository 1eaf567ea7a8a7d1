import Abac.Diagnostic.Sink
import Abac.Main
import Abac.Proofs.Condition.Influence
import Abac.Proofs.Decision.FailClosed
import Abac.Proofs.Decision.Order
import Abac.Proofs.Decision.Screened
import Abac.Proofs.Decision.Valid
import Abac.Proofs.Diagnostic.History
import Abac.Proofs.Policy.Lookup
import Abac.Proofs.Policy.RoundTrip
import Abac.Proofs.Validation.Documents
import Abac.Proofs.Validation.Lookup
import Abac.Proofs.Validation.Meaning
import Abac.Proofs.Validation.Reading
import Abac.Proofs.Number.Rounding
import Abac.Proofs.Operand.Integers
import Abac.Proofs.Operand.Numerals
import Abac.Proofs.Operand.CodePoints
import Abac.Proofs.Decision.Interleaving
import Abac.Proofs.Command.Check
import Abac.Proofs.Number.Decimals
import Abac.Proofs.Operand.Booleans
import Abac.Proofs.Schema.Declaration
import Abac.Proofs.Operand.Printed
import Abac.Proofs.Operand.Arrays
import Abac.Proofs.Number.LowDigits
import Abac.Proofs.Operand.Bases
import Abac.Proofs.Validation.Findings
import Abac.Proofs.Validation.Roots
import Abac.Proofs.Context.RoundTrip
import Abac.Proofs.Toml.Parts
import Abac.Proofs.Policy.Literals
import Abac.Proofs.Context.Resource
import Abac.Proofs.Policy.Flaws
import Abac.Proofs.Diagnostic.Export
import Abac.Proofs.Policy.Actions
import Abac.Proofs.Context.Segments
