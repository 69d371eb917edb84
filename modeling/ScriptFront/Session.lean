import ScriptFront.Parse.Program

/-!
# Parser sessions

A session is a parser at work that is told what to do one operation at a time: to look at a token, to
pass one, to open or close a level of nesting, to change the tables, or to read a phrase or a single
form. A fault leaves the session where it happened, and the next operation goes on from there.
-/

namespace ScriptFront

/-- A parser between two operations (`Parser`). -/
structure Session where
  stream : Stream
  tables : Tables

/-- What a session can be told to do. -/
inductive Operation where
  | current
  | kind
  | advance
  | hasTokens
  | expect (kind : Kind)
  | expectFor (kind : Kind) (reason : String)
  | enter
  | leave
  | addStart (kind : Kind) (form : StartForm)
  | addContinue (kind : Kind) (power : Power) (form : ContinueForm)
  | addStatement (kind : Kind) (form : StmtForm)
  | addTypeStart (kind : Kind) (form : TypeForm)
  | restoreTables
  | expr (bound : Power)
  | type (bound : Power)
  | startForm (form : StartForm)
  | continueForm (form : ContinueForm) (power : Power) (left : Expr)
  | typeForm (form : TypeForm)
  | stmtForm (form : StmtForm)

/-- What a session answers. -/
inductive Reply where
  | nothing
  | truth (value : Bool)
  | kind (kind : Kind)
  | token (token : Token)
  | expr (value : Expr)
  | type (value : TypeRef)
  | stmt (value : Stmt)
  | fault (cause : Fault)

namespace Session

/-- The session at the first of the tokens, with the standard tables (`Parser::new`). -/
def start (tokens : List Token) : Except Fault Session := do
  return ⟨← Stream.ofTokens tokens, .standard⟩

/-- How many levels of nesting are open. -/
def depth (s : Session) : Nat := s.stream.depth

/-- Runs a parser where the session stands; without an answer if the run would not end. -/
def run {α : Type} (s : Session) (p : Parse α) (reply : α → Reply) : Option (Reply × Session) :=
  match p s.stream with
  | .done value stream => some (reply value, { s with stream })
  | .fault cause stream => some (.fault cause, { s with stream })
  | .endless => none

/-- The reader of expressions by the session's tables. -/
def expr (s : Session) : Power → Parse Expr := Parse.readExpr s.tables.expressions

/-- The reader of types by the session's tables. -/
def type (s : Session) : Power → Parse TypeRef := Parse.readType s.tables

/-- The session with other tables. -/
def withTables (s : Session) (tables : Tables) : Option (Reply × Session) :=
  some (.nothing, { s with tables })

/-- Carries out an operation; without an answer if it would not end. -/
def perform (s : Session) : Operation → Option (Reply × Session)
  | .current => s.run Parse.current .token
  | .kind => s.run Parse.kind .kind
  | .advance => s.run Parse.advance .token
  | .hasTokens => s.run Parse.kind fun kind => .truth (kind != .endOfInput)
  | .expect kind => s.run (Parse.expect kind) .token
  | .expectFor kind reason => s.run (Parse.expectFor kind reason) .token
  | .enter => s.run Parse.enter fun _ => .nothing
  | .leave => s.run Parse.leave fun _ => .nothing
  | .addStart kind form => s.withTables (s.tables.addStart kind form)
  | .addContinue kind power form => s.withTables (s.tables.addContinue kind power form)
  | .addStatement kind form => s.withTables (s.tables.addStatement kind form)
  | .addTypeStart kind form => s.withTables (s.tables.addTypeStart kind form)
  | .restoreTables => s.withTables s.tables.restore
  | .expr bound => s.run (s.expr bound) .expr
  | .type bound => s.run (s.type bound) .type
  | .startForm form => s.run (Parse.startForm s.expr form) .expr
  | .continueForm form power left => s.run (Parse.continueForm s.expr form power left) .expr
  | .typeForm form => s.run (Parse.typeForm s.type s.expr form) .type
  | .stmtForm form => s.run (Parse.readForm s.tables form) .stmt

end Session

end ScriptFront
