import QuantumIR.Main
import QuantumIR.Session
import QuantumIR.Proofs.Emission.Rendering
import QuantumIR.Proofs.Emission.TwoPass
import QuantumIR.Proofs.OpenQasm.WrittenLine
import QuantumIR.Proofs.Emission.Session
import QuantumIR.Proofs.OpenQasm.ReadBack
import QuantumIR.Proofs.Agreement
import QuantumIR.Proofs.Assembly.Arguments
import QuantumIR.Proofs.Assembly.Codes
import QuantumIR.Proofs.Assembly.Completeness
import QuantumIR.Proofs.OpenQasm.Grammar
import QuantumIR.Proofs.OpenQasm.Recognition
import QuantumIR.Proofs.OpenQasm.Moves
import QuantumIR.Proofs.OpenQasm.Acceptance
import QuantumIR.Proofs.Renaming
import QuantumIR.Proofs.OpenQasm.Layout
import QuantumIR.Proofs.Assembly.Concatenation
import QuantumIR.Proofs.Assembly.Headers
import QuantumIR.Proofs.Numbering.Runs
import QuantumIR.Proofs.Json.Tokens
import QuantumIR.Proofs.Json.RoundTrip
import QuantumIR.Proofs.Json.Storable
import QuantumIR.Proofs.Circuit.Json
import QuantumIR.Proofs.Emission.Failure
import QuantumIR.Proofs.Assembly.CallShape
import QuantumIR.Proofs.Assembly.Opcodes
import QuantumIR.Proofs.Assembly.FirstError
import QuantumIR.Proofs.OpenQasm.FirstError
import QuantumIR.Proofs.OpenQasm.Keywords
import QuantumIR.Proofs.OpenQasm.Asides
import QuantumIR.Proofs.Noninterference
import QuantumIR.Proofs.Abbreviations
import QuantumIR.Proofs.Circuit.Construction
import QuantumIR.Proofs.Circuit.Printed
import QuantumIR.Proofs.Assembly.Splitting
