import ScriptFront.Parse.Climb
import ScriptFront.Tree.Expr

/-!
# Reading expressions

Each form reads its own tokens and leaves its operands to the reader of whole expressions, which it is
given as `expr`. `Parse.readExpr` ties the two together: it opens a level of nesting, in which its
operands are read by itself, and closes it again.
-/

namespace ScriptFront

/-- The expression that a token denotes by itself: a number, a name or a string (`parse_primary_expr`,
once it has its token). -/
def Token.toExpr (token : Token) : Except Fault Expr :=
  match token.kind with
  | .number =>
    match Double.read? token.lexeme with
    | some value => .ok (.number value)
    | none => .error (.unreadableNumber token.lexeme)
  | .identifier => .ok (.symbol token.lexeme)
  | .string => .ok (.string token.lexeme)
  | _ => .error (.cannotStart .expression token.kind token.lexeme)

namespace Parse

/-- One turn of the loop of `parse_expr_list`: an item of a list and the comma after it; the list is over
at the closing mark, or after an item without a comma. The items are kept in reverse. -/
def exprItem (expr : Power → Parse Expr) (closing : Mark) (items : List Expr) :
    Parse (Round (List Expr)) := do
  if (← kind) = .mark closing then
    return .over items
  let item ← expr .comma
  if (← kind) = .mark .comma then
    let _ ← advance
    return .again (item :: items)
  return .over (item :: items)

/-- Expressions separated by commas up to the closing mark, before which one more comma may stand
(`parse_expr_list`). -/
def exprList (expr : Power → Parse Expr) (closing : Mark) : Parse (List Expr) := do
  let items ← loop (exprItem expr closing) []
  let _ ← expect (.mark closing)
  return items.reverse

/-- Reads a token that is an expression by itself (`parse_primary_expr`). -/
def literal : Parse Expr := do
  match (← advance).toExpr with
  | .ok e => return e
  | .error cause => fail cause

/-- Reads the form that starts an expression (the prefix handlers `parse_primary_expr`,
`parse_prefix_expr`, `parse_grouping_expr` and `parse_grp_init_expr`). -/
def startForm (expr : Power → Parse Expr) : StartForm → Parse Expr
  | .literal => literal
  | .unary => do
    let operator ← advance
    return .unary operator (← expr .unary)
  | .parenthesised => do
    let _ ← advance
    let e ← expr .lowest
    let _ ← expect (.mark .closeParen)
    return e
  | .group => do
    let _ ← expect (.mark .openBracket)
    return .group (← exprList expr .closeBracket)

/-- Reads the form that continues the expression `left` with an operator of the given power (the infix
handlers `parse_binary_expr`, `parse_member_expr`, `parse_assignment_expr` and `parse_obj_init_expr`). -/
def continueForm (expr : Power → Parse Expr) : ContinueForm → Power → Expr → Parse Expr
  | .binary, power, left => do
    let operator ← advance
    return .binary operator left (← expr power)
  | .member, power, left => do
    let operator ← advance
    return .binary operator left (← expr power)
  | .assign, _, left => do
    let operator ← advance
    return .assign operator left (← expr .comma)
  | .construct, _, .symbol name => do
    let _ ← expect (.mark .openParen)
    return .construct name (← exprList expr .closeParen)
  | .construct, _, left => fail (.notConstructible left.describe)

/-- Reads an expression at a bound, in a level of nesting of its own (`parse_expr`, which is `parse_pratt`
for expressions). -/
def readExpr (g : ExprGrammar) (bound : Power) : Parse Expr := fun s =>
  let operand b := inside s fun s' _ => readExpr g b s'
  nested (climb .expression g (startForm operand) (continueForm operand) bound) s
termination_by s => s.room

end Parse

end ScriptFront
