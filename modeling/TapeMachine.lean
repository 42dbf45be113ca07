import TapeMachine.Block
import TapeMachine.Bracket.Balance
import TapeMachine.Bracket.Matcher
import TapeMachine.Engine.Counting
import TapeMachine.Program.Straight
import TapeMachine.Program.Transform
import TapeMachine.Program.Streams
import TapeMachine.Output
import TapeMachine.Proofs.Bracket.Scan
import TapeMachine.Proofs.Bracket.Search
import TapeMachine.Proofs.Bracket.Pair
import TapeMachine.Proofs.Bracket.Nesting
import TapeMachine.Proofs.Bracket.Stack
import TapeMachine.Proofs.Bracket.Append
import TapeMachine.Proofs.Bracket.Middle
import TapeMachine.Proofs.Bracket.Numbering
import TapeMachine.Proofs.Comment.Rank
import TapeMachine.Proofs.Engine.Rule
import TapeMachine.Proofs.Engine.Ending
import TapeMachine.Proofs.Engine.Numbering
import TapeMachine.Proofs.Engine.Append
import TapeMachine.Proofs.Comment.Neutral
import TapeMachine.Proofs.Width.Narrow
import TapeMachine.Proofs.Block.Layout
import TapeMachine.Proofs.Block.Refinement
import TapeMachine.Proofs.Block.Triple
import TapeMachine.Proofs.Block.Streams
import TapeMachine.Proofs.Width.Agreement
import TapeMachine.Proofs.Console.View
import TapeMachine.Proofs.Input.Tokens
import TapeMachine.Proofs.Input.Bytes
import TapeMachine.Proofs.Input.Lines
import TapeMachine.Proofs.Input.LineEndings
import TapeMachine.Proofs.Output.Schedule
import TapeMachine.Proofs.Retry.Session
import TapeMachine.Proofs.Retry.Bytes
import TapeMachine.Proofs.Engine.Image
import TapeMachine.Proofs.Tape.Visited
import TapeMachine.Proofs.Straight.Effect
import TapeMachine.Proofs.Tape.Symmetry
import TapeMachine.Proofs.Tape.Negation
import TapeMachine.Proofs.Tape.History
import TapeMachine.Proofs.Straight.Replacement
import TapeMachine.Proofs.Straight.Loop
import TapeMachine.Proofs.Loop.Dead
import TapeMachine.Proofs.Loop.Forward
import TapeMachine.Proofs.Console.Protocol
import TapeMachine.Proofs.Console.Follow
import TapeMachine.Proofs.Console.Alike
import TapeMachine.Proofs.Console.Queue
import TapeMachine.Proofs.Console.Bytes
import TapeMachine.Proofs.CommandLine.Library
import TapeMachine.Proofs.Width.Name
import TapeMachine.Proofs.Counting.Scan
import TapeMachine.Proofs.Counting.Range
