import Lox.Number.Numeral
import Lox.Text.Quoted
import Lox.Text.Letter
import Lox.Text.Digit
import Lox.Text.Lowercase
import Lox.Token.Piece
import Lox.Syntax.Outline
import Lox.Syntax.Program
import Lox.Resolution
import Lox.Syntax.Reference
import Lox.Builtin
import Lox.Machine.Step
import Lox.Session
import Lox.Report
import Lox.Yaml.Scalar
import Lox.Yaml.Node
import Lox.Yaml.Plain
import Lox.Version.Constraint
import Lox.Path
import Lox.Settings
import Lox.History
import Lox.ScriptChange
import Lox.Command.Flags
import Lox.Command.Log
import Lox.Command
import Lox.NodeFamily
import Lox.Main
import Lox.Proofs.Token.Partition
import Lox.Proofs.Token.Respacing
import Lox.Proofs.Syntax.Acceptance
import Lox.Proofs.Syntax.Recovery
import Lox.Proofs.Session.Soundness
import Lox.Proofs.Session.Pieces
import Lox.Proofs.Session.Layout
import Lox.Proofs.Session.CallLimit
import Lox.Proofs.Session.Constants
import Lox.Proofs.Session.SuperDispatch
import Lox.Proofs.Evaluation.Order
import Lox.Proofs.Resolution.Exactness
import Lox.Proofs.Session.Jumps
import Lox.Proofs.Session.Pointing
import Lox.Proofs.Session.Renaming
import Lox.Proofs.Evaluation.Characters
import Lox.Proofs.Heap.Separation
import Lox.Proofs.Heap.Properties
import Lox.Proofs.Session.Failure
import Lox.Proofs.Session.Semicolon
import Lox.Proofs.Report.Carets
import Lox.Proofs.Report.Inverse
import Lox.Proofs.Heap.Printing
import Lox.Proofs.Session.Inheritance
import Lox.Proofs.Session.Prompting
import Lox.Proofs.Syntax.Wellformed
import Lox.Proofs.Heap.Chain
