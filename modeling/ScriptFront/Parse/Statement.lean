import ScriptFront.Parse.TypeRef
import ScriptFront.Tree.Stmt

/-!
# Reading statements

A statement is read in the form that the tables give for its first token; without one it is an
expression and a semicolon. A block opens a level of nesting for the statements in it.
-/

namespace ScriptFront

/-- What the parts of a declaration tell about its variable. A constant needs a value, and a variable
a type or a value (the match that ends `parse_var_decl_stmt`). -/
def Binding.ofParts (name : String) (constant : Bool) (type : Option TypeRef)
    (value : Option Expr) : Except Fault Binding :=
  match type, value with
  | none, some value => .ok (.inferred value)
  | some type, some value => .ok (.annotated type value)
  | none, none =>
    .error (if constant then .constantWithoutValue name else .undetermined name)
  | some type, none => if constant then .error (.constantWithoutValue name) else .ok (.typed type)

namespace Parse

/-- Reads the type of a declaration after a colon, if there is one. -/
def declaredType (type : Power → Parse TypeRef) : Parse (Option TypeRef) := do
  if (← kind) = .mark .colon then
    let _ ← advance
    return some (← type .lowest)
  return none

/-- Reads the value of a declaration after its equals sign, unless the semicolon stands there. -/
def declaredValue (expr : Power → Parse Expr) : Parse (Option Expr) := do
  if (← kind) = .mark .semicolon then
    return none
  let _ ← expect (.mark .assign)
  return some (← expr .assignment)

/-- Reads a declaration: the word that opens it, a name, perhaps a type, perhaps a value
(`parse_var_decl_stmt`). -/
def declaration (type : Power → Parse TypeRef) (expr : Power → Parse Expr) : Parse Stmt := do
  let opening ← advance
  let constant := opening.kind == .word .const
  let name ← expectFor .identifier "expected identifier during variable declaration"
  let type ← declaredType type
  let value ← declaredValue expr
  let _ ← expect (.mark .semicolon)
  match Binding.ofParts name.lexeme constant type value with
  | .ok binding => return .declaration name.lexeme constant binding
  | .error cause => fail cause

/-- Reads items until a closing brace or the end of the input, and then the brace: the loop of
`parse_obj_decl_stmt` and of `parse_block_body`. An item is read with the ones before it at hand, the
latest first. -/
def untilBrace {α : Type} (item : List α → Parse α) : Parse (List α) := do
  let items ← loop (fun items => do
    let kind ← kind
    if kind = .endOfInput ∨ kind = .mark .closeCurly then
      return .over items
    let next ← item items
    return .again (next :: items)) []
  let _ ← expect (.mark .closeCurly)
  return items.reverse

/-- Reads one property of the type `object`, which must not have it yet (a turn of the loop of
`parse_obj_decl_stmt`). -/
def property (type : Power → Parse TypeRef) (object : String) (properties : List Property) :
    Parse Property := do
  let name ← expectFor .identifier "expected property name inside object"
  let _ ← expectFor (.mark .colon) "value type must be explicitly declared inside object"
  let type ← type .lowest
  let _ ← expect (.mark .semicolon)
  if properties.any fun p => p.name == name.lexeme then
    fail (.duplicateProperty object name.lexeme)
  else
    return ⟨name.lexeme, type⟩

/-- Reads the declaration of an object type (`parse_obj_decl_stmt`). -/
def objectType (type : Power → Parse TypeRef) : Parse Stmt := do
  let _ ← expect (.word .obj)
  let name ← expectFor .identifier "expected object name after `obj`"
  let _ ← expect (.mark .openCurly)
  return .object name.lexeme (← untilBrace (property type name.lexeme))

/-- Reads statements in braces (`parse_block_body`). -/
def block (stmt : Parse Stmt) : Parse Stmt := do
  let _ ← expect (.mark .openCurly)
  return .block (← untilBrace fun _ => stmt)

/-- Reads an expression and the semicolon after it (the end of `parse_stmt`). -/
def expressionStmt (expr : Power → Parse Expr) : Parse Stmt := do
  let e ← expr .lowest
  let _ ← expect (.mark .semicolon)
  return .expression e

/-- Reads the form that the tables give for the current token, or else an expression statement
(`parse_stmt`). A form that leads back to the tables without reading a token does so for ever. -/
def dispatch (t : Tables) (type : Power → Parse TypeRef) (expr : Power → Parse Expr)
    (block : Parse Stmt) : Parse Stmt := do
  let kind ← kind
  match t.statements kind with
  | none => expressionStmt expr
  | some form =>
    record (.statement kind)
    match form with
    | .any => never
    | .declaration => declaration type expr
    | .object => objectType type
    | .block => block

/-- Reads a statement (`parse_stmt`). A block in it is read in a level of nesting of its own. -/
def readStmt (t : Tables) : Parse Stmt := fun s =>
  let stmt := inside s fun s' _ => readStmt t s'
  dispatch t (readType t) (readExpr t.expressions) (nested (block stmt)) s
termination_by s => s.room

/-- Reads a block in a level of nesting of its own (`parse_block_stmt`). -/
def readBlock (t : Tables) : Parse Stmt := nested (block (readStmt t))

/-- Reads a statement of the given form. -/
def readForm (t : Tables) : StmtForm → Parse Stmt
  | .any => readStmt t
  | .declaration => declaration (readType t) (readExpr t.expressions)
  | .object => objectType (readType t)
  | .block => readBlock t

end Parse

end ScriptFront
