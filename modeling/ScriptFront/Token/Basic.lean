import ScriptFront.Token.Kind

/-!
# Tokens

A token is a kind together with its lexeme: the text it stands for, in the case of a string literal
the text that the literal denotes.
-/

namespace ScriptFront

/-- A kind and the text that goes with it (`Token`, made by `MK_TOKEN`). -/
structure Token where
  kind : Kind
  lexeme : String
deriving DecidableEq, Repr

namespace Token

/-- The token that closes every stream. -/
def endOfInput : Token := ⟨.endOfInput, "EOF"⟩

/-- A listing of a token shows its text only where the kind does not settle it (`fmt` of tokens). -/
def display (t : Token) : String :=
  t.kind.name ++ " (" ++ (if t.kind.isLiteral then t.lexeme else "") ++ ")"

end Token

end ScriptFront
