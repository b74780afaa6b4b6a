import Scriptlet.Main
import Scriptlet.Proofs.Grammar
import Scriptlet.Proofs.Lexicon
import Scriptlet.Proofs.Lines
import Scriptlet.Proofs.Interpolation
import Scriptlet.Proofs.Arithmetic
import Scriptlet.Proofs.Token.MaximalMunch
import Scriptlet.Proofs.Token.Boundary
import Scriptlet.Proofs.Token.Newline
import Scriptlet.Proofs.Token.Layout
import Scriptlet.Proofs.Token.Spacing
import Scriptlet.Proofs.Token.Recovery
import Scriptlet.Proofs.Syntax.Outcome
import Scriptlet.Proofs.Syntax.ExpressionReading
import Scriptlet.Proofs.Syntax.ExpressionDerivation
import Scriptlet.Proofs.Syntax.LongestExpression
import Scriptlet.Proofs.Syntax.StatementReading
import Scriptlet.Proofs.Syntax.StatementDerivation
import Scriptlet.Proofs.Syntax.Program
import Scriptlet.Proofs.Syntax.Writing
import Scriptlet.Proofs.Syntax.Writable
import Scriptlet.Proofs.Syntax.Relabelling
import Scriptlet.Proofs.Syntax.Respelling
import Scriptlet.Proofs.Syntax.Kinds
import Scriptlet.Proofs.Evaluation.Effect
import Scriptlet.Proofs.Evaluation.Scopes
import Scriptlet.Proofs.Evaluation.Simulation
import Scriptlet.Proofs.Evaluation.Noninterference
import Scriptlet.Proofs.Evaluation.Naturality
import Scriptlet.Proofs.Evaluation.Sequencing
import Scriptlet.Proofs.Evaluation.Shape
import Scriptlet.Proofs.Evaluation.Termination
import Scriptlet.Proofs.Evaluation.Equations
import Scriptlet.Proofs.Evaluation.Points
import Scriptlet.Proofs.Evaluation.Origins
import Scriptlet.Proofs.Evaluation.Trail
import Scriptlet.Proofs.Evaluation.Discipline
import Scriptlet.Proofs.IntegerRange
import Scriptlet.Proofs.Evaluation.Blame
import Scriptlet.Proofs.Evaluation.Log
import Scriptlet.Proofs.Evaluation.CallDepth
import Scriptlet.Proofs.Evaluation.Setting
import Scriptlet.Proofs.Evaluation.DepthLimit
import Scriptlet.Proofs.Evaluation.Room
import Scriptlet.Proofs.Rendering
import Scriptlet.Proofs.Splitting
import Scriptlet.Proofs.Spelling
import Scriptlet.Proofs.Newlines
import Scriptlet.Proofs.OutputLines
import Scriptlet.Proofs.InputLines
import Scriptlet.Proofs.Evaluation.Reads
import Scriptlet.Proofs.Evaluation.UnreadInput
import Scriptlet.Proofs.Evaluation.Replay
import Scriptlet.Proofs.Syntax.Form
import Scriptlet.Proofs.Listing
import Scriptlet.Proofs.Verdict
import Scriptlet.Proofs.Syntax.Continuation
import Scriptlet.Proofs.Evaluation.CallProtocol
import Scriptlet.Proofs.MarkedNames
import Scriptlet.Proofs.Random.Acceptance
import Scriptlet.Proofs.Random.Draw
import Scriptlet.Proofs.Settings
import Scriptlet.Proofs.Token.Listing
