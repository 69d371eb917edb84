import ScriptFront.Tree.Expr
import ScriptFront.Tree.TypeRef

/-!
# Statements and programs

A program is a list of statements. A declaration of a variable always tells its type, its value or
both; which of them is the declaration's binding.
-/

namespace ScriptFront

/-- What a declaration tells about its variable (`VarBinding`). -/
inductive Binding where
  | typed (type : TypeRef)
  | inferred (value : Expr)
  | annotated (type : TypeRef) (value : Expr)
deriving Repr

/-- A property of an object type. -/
structure Property where
  name : String
  type : TypeRef
deriving DecidableEq, Repr

/-- A statement. -/
inductive Stmt where
  | block (body : List Stmt)
  | expression (value : Expr)
  /-- The declaration of a variable or, if `constant`, of a constant. -/
  | declaration (name : String) (constant : Bool) (binding : Binding)
  /-- The declaration of an object type. -/
  | object (name : String) (properties : List Property)
deriving Repr

/-- The statements of a whole source (the outermost `BlockStmt`). -/
structure Program where
  body : List Stmt
deriving Repr

namespace Binding

/-- The type that was written, if any (`explicit_type`). -/
def type? : Binding → Option TypeRef
  | typed type | annotated type _ => some type
  | inferred _ => none

/-- The value that was written, if any (`assigned_value`). -/
def value? : Binding → Option Expr
  | inferred value | annotated _ value => some value
  | typed _ => none

/-- Equality of bindings, with numbers compared as numbers. -/
def same : Binding → Binding → Bool
  | typed t, typed t' => t == t'
  | inferred e, inferred e' => e.same e'
  | annotated t e, annotated t' e' => t == t' && e.same e'
  | _, _ => false

/-- The structure of a binding. -/
def dump : Binding → Dump
  | typed type => .wrap "Typed" type.dump
  | inferred value => .wrap "Inferred" value.dump
  | annotated type value =>
    .record "Annotated" [("explicit_type", type.dump), ("value", value.dump)]

end Binding

namespace Property

/-- The first property of the given name (`property`). -/
def find? (name : String) (properties : List Property) : Option Property :=
  List.find? (fun p => p.name == name) properties

/-- The structure of a property. -/
def dump (p : Property) : Dump :=
  .record "ObjectProperty" [("name", .text p.name), ("property_type", p.type.dump)]

end Property

namespace Stmt

mutual

/-- Equality of statements, with numbers compared as numbers. -/
def same : Stmt → Stmt → Bool
  | block a, block b => sameAll a b
  | expression a, expression b => a.same b
  | declaration n c a, declaration n' c' b => n == n' && c == c' && a.same b
  | object n ps, object n' ps' => n == n' && ps == ps'
  | _, _ => false

/-- Equality of lists of statements. -/
def sameAll : List Stmt → List Stmt → Bool
  | [], [] => true
  | a :: as, b :: bs => a.same b && sameAll as bs
  | _, _ => false

end

mutual

/-- The structure of a statement. -/
def dump : Stmt → Dump
  | block body => .wrap "Block" (.record "BlockStmt" [("body", .list (dumpAll body))])
  | expression value =>
    .wrap "Expression" (.record "ExpressionStmt" [("expression", value.dump)])
  | declaration name constant binding =>
    .wrap "VarDecl" (.record "VarDeclStmt"
      [("identifier", .text name), ("is_constant", .bool constant), ("binding", binding.dump)])
  | object name properties =>
    .wrap "ObjDecl" (.record "ObjDeclStmt"
      [("name", .text name), ("properties", .list (properties.map Property.dump))])

/-- The structure of each statement. -/
def dumpAll : List Stmt → List Dump
  | [] => []
  | s :: ss => s.dump :: dumpAll ss

end

end Stmt

namespace Program

/-- Equality of programs, with numbers compared as numbers. -/
def same (p q : Program) : Bool := Stmt.sameAll p.body q.body

/-- The structure of a program. -/
def dump (p : Program) : Dump := .record "BlockStmt" [("body", .list (Stmt.dumpAll p.body))]

end Program

end ScriptFront
