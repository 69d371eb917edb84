import ScriptFront.Parse.Expression
import ScriptFront.Tree.TypeRef

/-!
# Reading types

A type is a name or `grp<element, size>`. The size is read as an expression that stops short of
comparisons, so that the closing `>` is not taken for one, and has to be a number as written, perhaps
with a dash before it.
-/

namespace ScriptFront

namespace Expr

/-- The number that an expression writes out: a number, or a dash and a number (`literal_size`). -/
def literalValue? : Expr → Option Double
  | number value => some value
  | unary operator (number value) =>
    if operator.kind = .mark .dash then some value.neg else none
  | _ => none

/-- The size that an expression states, or why it states none (the end of `parse_group_type`). -/
def statedSize (e : Expr) : Except Fault UInt64 :=
  match e.literalValue? with
  | none => .error (.sizeNotLiteral e.describe)
  | some value =>
    match TypeRef.size? value with
    | some size => .ok size
    | none => .error (.sizeOutOfRange (value.write .plain))

end Expr

namespace Parse

/-- Reads `grp<element, size>` up to the closing `>`, before its size is judged. -/
def groupParts (type : Power → Parse TypeRef) (expr : Power → Parse Expr) : Parse (TypeRef × Expr) := do
  let _ ← expect (.word .grp)
  let _ ← expect (.mark .less)
  let element ← type .lowest
  let _ ← expect (.mark .comma)
  let size ← expr .relational
  let _ ← expect (.mark .greater)
  return (element, size)

/-- Reads the form that starts a type (`parse_symbol_type` and `parse_group_type`). -/
def typeForm (type : Power → Parse TypeRef) (expr : Power → Parse Expr) :
    TypeForm → Parse TypeRef
  | .named => do
    let name ← expect .identifier
    return .named name.lexeme
  | .group => do
    let parts ← groupParts type expr
    match parts.2.statedSize with
    | .ok size => return .group parts.1 size
    | .error cause => fail cause

/-- Reads a type at a bound, in a level of nesting of its own (`parse_type`, which is `parse_pratt` for
types). -/
def readType (t : Tables) (bound : Power) : Parse TypeRef := fun s =>
  let element b := inside s fun s' _ => readType t b s'
  nested (climb .typeRef t.types (typeForm element (readExpr t.expressions))
    (fun form _ _ => nomatch form) bound) s
termination_by s => s.room

end Parse

end ScriptFront
