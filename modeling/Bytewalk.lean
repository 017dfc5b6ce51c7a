import Bytewalk.Main
import Bytewalk.Code.Encoding
import Bytewalk.Program.Builder
import Bytewalk.Proofs.Code.Passage
import Bytewalk.Proofs.Code.Contents
import Bytewalk.Proofs.Code.Literal
import Bytewalk.Proofs.Code.PassEncoding
import Bytewalk.Proofs.Machine.Following
import Bytewalk.Proofs.Machine.ExpressionLayouts
import Bytewalk.Proofs.Machine.StatementLayouts
import Bytewalk.Proofs.Machine.PassExecution
import Bytewalk.Proofs.Machine.Coverage
import Bytewalk.Proofs.Tree.Address
import Bytewalk.Proofs.Tree.Signals
import Bytewalk.Proofs.Tree.Obedience
import Bytewalk.Proofs.Tree.Normalization
import Bytewalk.Proofs.Tree.Semantics
import Bytewalk.Proofs.Tree.Simulation
import Bytewalk.Proofs.Tree.ExpressionSimulation
import Bytewalk.Proofs.Tree.DeclarationSimulation
import Bytewalk.Proofs.Tree.RunSimulation
import Bytewalk.Proofs.Machine.Termination
import Bytewalk.Proofs.Tree.Steps
import Bytewalk.Proofs.Program.Assembly
import Bytewalk.Proofs.Program.RoundTrip
import Bytewalk.Proofs.Tree.Refinement
import Bytewalk.Proofs.Code.UniqueDecoding
import Bytewalk.Proofs.Code.Wire
import Bytewalk.Proofs.Code.Grammar
import Bytewalk.Proofs.Code.LiteralRoundTrip
import Bytewalk.Proofs.Machine.Lockstep
import Bytewalk.Proofs.Machine.Congruence
import Bytewalk.Proofs.Machine.Limits
import Bytewalk.Proofs.Machine.Sessions
import Bytewalk.Proofs.Machine.Echoing
import Bytewalk.Proofs.Machine.Traces
import Bytewalk.Proofs.Code.Walk
import Bytewalk.Proofs.Machine.Halting
import Bytewalk.Proofs.Machine.Contexts
import Bytewalk.Proofs.Machine.Containment
import Bytewalk.Proofs.Machine.Stability
import Bytewalk.Proofs.Machine.Placeholders
import Bytewalk.Proofs.Tree.Discipline
import Bytewalk.Proofs.Tree.Renaming
import Bytewalk.Proofs.Tree.Alignment
import Bytewalk.Proofs.Tree.AlignedRuns
import Bytewalk.Proofs.Tree.Opacity
import Bytewalk.Proofs.Machine.Watches
import Bytewalk.Proofs.Tree.Offsets
import Bytewalk.Proofs.Tree.Guards
import Bytewalk.Proofs.Tree.Namespaces
import Bytewalk.Proofs.Code.Overhang
import Bytewalk.Proofs.Machine.Cursors
import Bytewalk.Proofs.Machine.CursorBounds
import Bytewalk.Proofs.Machine.CursorRuns
import Bytewalk.Proofs.Scope.Forest
import Bytewalk.Proofs.Machine.Integers
import Bytewalk.Proofs.Program.Interning
import Bytewalk.Proofs.Host.Registration
import Bytewalk.Proofs.Text.Numeral
import Bytewalk.Proofs.Command.Settings
import Bytewalk.Proofs.Number.Order
import Bytewalk.Proofs.Library.Extrema
import Bytewalk.Proofs.Machine.Displacement
import Bytewalk.Proofs.Machine.Members
import Bytewalk.Proofs.Code.Tiling
import Bytewalk.Proofs.Machine.Classes
