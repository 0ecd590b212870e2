import Scriptlet.Main
import Scriptlet.Proofs.Program.Behaviour
import Scriptlet.Proofs.Program.Faults
import Scriptlet.Proofs.Program.Layout
import Scriptlet.Proofs.Token.Lossless
import Scriptlet.Proofs.Typing.Preservation
import Scriptlet.Proofs.Typing.Soundness
import Scriptlet.Proofs.Exec.Sources
import Scriptlet.Session
import Scriptlet.Proofs.Grammar.Completion
import Scriptlet.Proofs.Input.Lines
import Scriptlet.Proofs.Exec.Demand
import Scriptlet.Proofs.Exec.Footprint
import Scriptlet.Proofs.Grammar.Precedence
import Scriptlet.Proofs.Typing.Atomicity
import Scriptlet.Proofs.Scope.SymbolTable
import Scriptlet.Proofs.Cases.Labels
import Scriptlet.Proofs.Typing.OnePass
import Scriptlet.Proofs.Input.Consumption
import Scriptlet.Proofs.Input.Entry
import Scriptlet.Proofs.Report.Caret
import Scriptlet.Proofs.Program.Progress
import Scriptlet.Proofs.Text.Lookup
import Scriptlet.Proofs.Number.Words
