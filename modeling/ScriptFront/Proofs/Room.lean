import ScriptFront.Parse.Program

/-!
# Readers with a given room

The readers of expressions, types and statements count the levels of nesting in the stream. Here are
readers that are told in advance how many levels they may open, each part being read with one less, and that
neither look at the count in the stream nor change it. They are defined by recursion on the room, so that
what holds of them is proved by induction on it. The readers that count are the ones whose room is what the
stream has left (`Parse.readExpr_eq`, `Parse.readType_eq`, `Parse.readStmt_eq`).
-/

namespace ScriptFront.Parse

/-- Reads an expression at a bound, with room for so many levels of nesting. -/
def exprWithin (g : ExprGrammar) : Nat → Power → Parse Expr
  | 0, _ => fail (.tooDeep maxNesting)
  | room + 1, bound =>
    climb .expression g (startForm (exprWithin g room)) (continueForm (exprWithin g room)) bound

/-- Reads a type at a bound, with room for so many levels of nesting. -/
def typeWithin (t : Tables) : Nat → Power → Parse TypeRef
  | 0, _ => fail (.tooDeep maxNesting)
  | room + 1, bound =>
    climb .typeRef t.types (typeForm (typeWithin t room) (exprWithin t.expressions room))
      (fun form _ _ => nomatch form) bound

/-- Reads a statement, with room for so many levels of nesting. -/
def stmtWithin (t : Tables) : Nat → Parse Stmt
  | 0 => dispatch t (typeWithin t 0) (exprWithin t.expressions 0) (fail (.tooDeep maxNesting))
  | room + 1 =>
    dispatch t (typeWithin t (room + 1)) (exprWithin t.expressions (room + 1)) (block (stmtWithin t room))

/-- Reads a block, with room for so many levels of nesting, its own among them. -/
def blockWithin (t : Tables) : Nat → Parse Stmt
  | 0 => fail (.tooDeep maxNesting)
  | room + 1 => block (stmtWithin t room)

theorem stmtWithin_eq (t : Tables) (room : Nat) :
    stmtWithin t room =
      dispatch t (typeWithin t room) (exprWithin t.expressions room) (blockWithin t room) := by
  cases room <;> rfl

/-- Reads a statement of the given form, with room for so many levels of nesting. -/
def formWithin (t : Tables) (room : Nat) : StmtForm → Parse Stmt
  | .any => stmtWithin t room
  | .declaration => declaration (typeWithin t room) (exprWithin t.expressions room)
  | .object => objectType (typeWithin t room)
  | .block => blockWithin t room

end ScriptFront.Parse
