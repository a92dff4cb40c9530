import Sigil.Text.Basic
import Sigil.Text.Bytes
import Sigil.Text.Occurrence
import Sigil.Text.Visible
import Sigil.Text.Quoted
import Sigil.Double.Power
import Sigil.Double.Basic
import Sigil.Double.Bits
import Sigil.Double.Decimal
import Sigil.Double.Shortest
import Sigil.Double.Layout
import Sigil.Symbol.Address
import Sigil.Symbol.Table
import Sigil.Node.Basic
import Sigil.Node.Query
import Sigil.Node.Scan
import Sigil.Node.Render
import Sigil.Node.Placeholder
import Sigil.Node.Bound
import Sigil.Value.Basic
import Sigil.ArrayText.Problem
import Sigil.ArrayText.Figure
import Sigil.ArrayText.Reader
import Sigil.Keyword
import Sigil.Error
import Sigil.Script.Store
import Sigil.Host.Basic
import Sigil.Host.Path
import Sigil.Host.Files
import Sigil.Machine.Basic
import Sigil.Machine.Statement
import Sigil.Machine.Run
import Sigil.CommandLine.Options
import Sigil.CommandLine.Report
import Sigil.Main
import Sigil.Proofs.Node.Forest
import Sigil.Proofs.Symbol.Table
import Sigil.Proofs.Machine.Frame
import Sigil.Proofs.Machine.Reading
import Sigil.Proofs.Machine.Conduct
import Sigil.Proofs.Machine.Integrity
import Sigil.Proofs.Machine.Task
import Sigil.Proofs.Machine.Recursion
import Sigil.Proofs.Machine.Isolation
import Sigil.Proofs.Machine.Failure
import Sigil.Proofs.Machine.Trace
import Sigil.Proofs.Machine.Balance
import Sigil.Proofs.Machine.Turn
import Sigil.Proofs.CommandLine.Script
import Sigil.Proofs.Machine.Argument
import Sigil.Proofs.Machine.Calling
import Sigil.Proofs.Node.Rendering
import Sigil.Proofs.ArrayText.Items
import Sigil.Proofs.Machine.ArrayVariable
import Sigil.Proofs.Machine.Lines
import Sigil.Proofs.Machine.VariableStore
import Sigil.Proofs.Machine.Imports
import Sigil.Proofs.Machine.Growth
import Sigil.Proofs.Machine.Lockstep
import Sigil.Proofs.Machine.Signals
import Sigil.Proofs.Machine.DepthLimit
import Sigil.Proofs.Machine.Interrupt
import Sigil.Proofs.Node.Refilling
import Sigil.Proofs.Machine.Settling
import Sigil.Proofs.Text.Bytes
import Sigil.Proofs.Text.Occurrence
import Sigil.Proofs.Node.Following
import Sigil.Proofs.ArrayText.RoundTrip
import Sigil.Proofs.Node.Nesting
import Sigil.Proofs.Node.Operands
import Sigil.Proofs.Machine.Writing
import Sigil.Proofs.Symbol.Registration
import Sigil.Proofs.Machine.Comparison
import Sigil.Proofs.Node.Conservation
import Sigil.Proofs.Node.NormalForm
import Sigil.Proofs.Node.Strict
import Sigil.Proofs.Node.Printing
import Sigil.Proofs.Node.Expansion
