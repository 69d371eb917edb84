import ScriptFront.Main
import ScriptFront.Session
import ScriptFront.Text.Cursor
import ScriptFront.Proofs.Run
import ScriptFront.Proofs.Expression.Complete
import ScriptFront.Proofs.Expression.Sound
import ScriptFront.Proofs.Program.Grammar
import ScriptFront.Proofs.Program.TypeRef
import ScriptFront.Proofs.Sequence
import ScriptFront.Proofs.Program.Statement
import ScriptFront.Proofs.Program.Exact
import ScriptFront.Proofs.Token.Match
import ScriptFront.Proofs.Token.Spelling
import ScriptFront.Proofs.Token.Image
import ScriptFront.Proofs.Agree
import ScriptFront.Proofs.Print.Format
import ScriptFront.Proofs.Print.RoundTrip
import ScriptFront.Proofs.Program.Append
import ScriptFront.Proofs.Progress
import ScriptFront.Proofs.Session
import ScriptFront.Proofs.Local
import ScriptFront.Proofs.Token.Longest
import ScriptFront.Proofs.Token.Stuck
import ScriptFront.Proofs.Faults
import ScriptFront.Proofs.Program.Nodes
import ScriptFront.Proofs.Program.Chain
import ScriptFront.Proofs.Program.Height
import ScriptFront.Proofs.Rounding
import ScriptFront.Proofs.Program.Size
import ScriptFront.Proofs.Trace
import ScriptFront.Proofs.Program.Trace
import ScriptFront.Proofs.Program.SizeCheck
import ScriptFront.Proofs.Program.Annotation
import ScriptFront.Proofs.Program.Depth
import ScriptFront.Proofs.Program.Ending
import ScriptFront.Proofs.Token.Spacing
import ScriptFront.Proofs.Token.Scanner
import ScriptFront.Proofs.Token.Escape
import ScriptFront.Proofs.Program.Equality
import ScriptFront.Proofs.Resume
