import SExprNav.Main
import SExprNav.Traversal.Description
import SExprNav.Proofs.Traversal.Combinators
import SExprNav.Proofs.Traversal.Rollback
import SExprNav.Proofs.Traversal.Conditions
import SExprNav.Proofs.Traversal.Compatible
import SExprNav.Proofs.Traversal.Replay
import SExprNav.Proofs.Forest.Placed
import SExprNav.Proofs.Forest.Nodes
import SExprNav.Proofs.Forest.Reading
import SExprNav.Proofs.Forest.Level
import SExprNav.Proofs.Forest.Representation
import SExprNav.Proofs.Cursor.Landing
import SExprNav.Proofs.Forest.Alike
import SExprNav.Proofs.Cursor.Correspondence
import SExprNav.Proofs.Cursor.Abreast
import SExprNav.Proofs.Action.Alike
import SExprNav.Proofs.Traversal.Alike
import SExprNav.Proofs.Traversal.Formatting
import SExprNav.Proofs.Cursor.Advance
import SExprNav.Proofs.Traversal.Movement
import SExprNav.Proofs.Forest.Nesting
import SExprNav.Proofs.Cursor.Reach
import SExprNav.Proofs.Traversal.Progress
import SExprNav.Proofs.Forest.Order
import SExprNav.Proofs.Cursor.Relatives
import SExprNav.Proofs.Cursor.Tour
import SExprNav.Proofs.Cursor.Repetition
import SExprNav.Proofs.Traversal.Tour
import SExprNav.Proofs.Process.Evaluate
import SExprNav.Proofs.Process.Termination
import SExprNav.Proofs.Process.Execution
import SExprNav.Proofs.Process.Composition
import SExprNav.Proofs.Token.Scan
import SExprNav.Proofs.Forest.Chain
import SExprNav.Proofs.Forest.Stack
import SExprNav.Proofs.Cursor.Displacement
import SExprNav.Proofs.Traversal.Displacement
import SExprNav.Proofs.Token.Termination
import SExprNav.Proofs.Forest.Concatenation
import SExprNav.Proofs.Traversal.Algebra
import SExprNav.Proofs.Bare.Session
import SExprNav.Proofs.Forest.Kinship
import SExprNav.Proofs.Cursor.Ends
import SExprNav.Proofs.Cursor.Children
import SExprNav.Proofs.Cursor.Skipping
import SExprNav.Proofs.Cursor.Sideways
import SExprNav.Proofs.Cursor.Inside
import SExprNav.Proofs.Command.Reading
import SExprNav.Proofs.CommandLine.Position
import SExprNav.Proofs.CommandLine.Exit
import SExprNav.Proofs.Cursor.Outward
import SExprNav.Proofs.Traversal.Orbit
import SExprNav.Proofs.Traversal.Counted
import SExprNav.Proofs.Cursor.Additivity
import SExprNav.Proofs.Traversal.Boundaries
import SExprNav.Proofs.Token.Words
import SExprNav.Proofs.Traversal.WrittenForm
import SExprNav.Proofs.Command.Navigation
import SExprNav.Proofs.Token.Clearing
import SExprNav.Proofs.Forest.Idle
import SExprNav.Proofs.Cursor.Clearing
import SExprNav.Proofs.Text.Line
import SExprNav.Proofs.Command.Count
