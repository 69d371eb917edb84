import ScriptFront.Double.Layout
import ScriptFront.Dump
import ScriptFront.Token.Dump

/-!
# Expressions

The trees of value expressions. Operators are kept as the tokens that wrote them; parentheses leave no
trace.
-/

namespace ScriptFront

/-- A value expression. -/
inductive Expr where
  | number (value : Double)
  | string (value : String)
  | symbol (name : String)
  /-- An operator before its operand. -/
  | unary (operator : Token) (operand : Expr)
  /-- An operator between two operands; the access to a member is one of these. -/
  | binary (operator : Token) (left right : Expr)
  | assign (operator : Token) (target value : Expr)
  /-- An object made from its type's name and arguments. -/
  | construct (name : String) (arguments : List Expr)
  /-- The elements of a group written out. -/
  | group (elements : List Expr)
deriving Repr

namespace Expr

/-- What an expression is, in a few words (`describe`). -/
def describe : Expr → String
  | number value => "number `" ++ value.write .plain ++ "`"
  | string value => "string " ++ Text.quoted value
  | symbol name => "symbol `" ++ name ++ "`"
  | unary operator _ => "prefix `" ++ operator.lexeme ++ "` expression"
  | binary operator _ _ => "binary `" ++ operator.lexeme ++ "` expression"
  | assign operator _ _ => "assignment `" ++ operator.lexeme ++ "` expression"
  | construct name _ => "instantiation of `" ++ name ++ "`"
  | group _ => "group literal"

mutual

/-- Equality of expressions, with numbers compared as numbers. -/
def same : Expr → Expr → Bool
  | number a, number b => a.same b
  | string a, string b => a == b
  | symbol a, symbol b => a == b
  | unary o a, unary o' a' => o == o' && a.same a'
  | binary o a b, binary o' a' b' => o == o' && a.same a' && b.same b'
  | assign o a b, assign o' a' b' => o == o' && a.same a' && b.same b'
  | construct n as, construct n' as' => n == n' && sameAll as as'
  | group as, group as' => sameAll as as'
  | _, _ => false

/-- Equality of lists of expressions. -/
def sameAll : List Expr → List Expr → Bool
  | [], [] => true
  | a :: as, b :: bs => a.same b && sameAll as bs
  | _, _ => false

end

mutual

/-- The structure of an expression. -/
def dump : Expr → Dump
  | number value =>
    .wrap "Number" (.record "NumberExpr" [("value", .atom (value.write .dump))])
  | string value => .wrap "String" (.record "StringExpr" [("value", .text value)])
  | symbol name => .wrap "Symbol" (.record "SymbolExpr" [("value", .text name)])
  | unary operator operand =>
    .wrap "Prefix" (.record "PrefixExpr"
      [("operator", operator.dump), ("right_expr", operand.dump)])
  | binary operator left right =>
    .wrap "Binary" (.record "BinaryExpr"
      [("left", left.dump), ("operator", operator.dump), ("right", right.dump)])
  | assign operator target value =>
    .wrap "Assignment" (.record "AssignmentExpr"
      [("assignee", target.dump), ("operator", operator.dump), ("value", value.dump)])
  | construct name arguments =>
    .wrap "ObjInit" (.record "ObjInitExpr"
      [("name", .text name), ("arguments", .list (dumpAll arguments))])
  | group elements =>
    .wrap "GrpInit" (.record "GrpInitExpr" [("elements", .list (dumpAll elements))])

/-- The structure of each expression. -/
def dumpAll : List Expr → List Dump
  | [] => []
  | e :: es => e.dump :: dumpAll es

end

end Expr

end ScriptFront
