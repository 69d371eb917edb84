import ScriptFront.Dump
import ScriptFront.Token.Basic

/-!
# The structure of tokens
-/

namespace ScriptFront

/-- The structure of a token. -/
def Token.dump (t : Token) : Dump :=
  .record "Token" [("kind", .atom t.kind.name), ("value", .text t.lexeme)]

end ScriptFront
