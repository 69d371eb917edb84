import ScriptFront.Parse.Statement
import ScriptFront.Token.Scan
import ScriptFront.Token.Scanner

/-!
# Programs

The whole way from source text to tree. `Run` keeps the answer of a run together with the events on
the way to it; `parse`, `parseType` and `parseSource` keep the answer alone.
-/

namespace ScriptFront

/-- What came of a run. -/
inductive Answer (α : Type) where
  | ok (value : α)
  | fault (cause : Fault)
  /-- Nothing, for the run would not end or could not go on. -/
  | endless

namespace Answer

/-- Equality of answers, given one of values. -/
def same {α : Type} (eq : α → α → Bool) : Answer α → Answer α → Bool
  | ok a, ok b => eq a b
  | fault a, fault b => a == b
  | endless, endless => true
  | _, _ => false

/-- The run came to a value. -/
def isOk {α : Type} : Answer α → Bool
  | ok _ => true
  | _ => false

end Answer

/-- An answer and the events before it. -/
structure Run (α : Type) where
  answer : Answer α
  events : List Event

namespace Run

variable {α : Type}

/-- The answer and the events of an outcome. -/
def ofOutcome : Outcome α → Run α
  | .done value s => ⟨.ok value, s.events⟩
  | .fault cause s => ⟨.fault cause, s.events⟩
  | .endless => ⟨.endless, []⟩

/-- Goes on from the value that a run came to, if it came to one. -/
def andThen {β : Type} (r : Run α) (next : α → Run β) : Run β :=
  match r.answer with
  | .ok a => ⟨(next a).answer, r.events ++ (next a).events⟩
  | .fault cause => ⟨.fault cause, r.events⟩
  | .endless => ⟨.endless, r.events⟩

/-- Runs a parser from the first token. -/
def ofTokens (p : Parse α) (tokens : List Token) : Run α :=
  match Stream.ofTokens tokens with
  | .ok s => ofOutcome (p s)
  | .error cause => ⟨.fault cause, []⟩

end Run

namespace Parse

/-- Reads statements until the end of the input, and reports how many there were (the body of `parse`). -/
def untilEnd (stmt : Parse Stmt) : Parse Program := do
  let body ← loop (fun body => do
    if (← kind) = .endOfInput then
      return .over body
    let next ← stmt
    return .again (next :: body)) []
  record (.parsed body.length)
  return ⟨body.reverse⟩

/-- Reads a program. -/
def program (t : Tables) : Parse Program := untilEnd (readStmt t)

/-- Reads one type, after which the input has to end (the body of `parse_type_annotation`). -/
def wholeType (t : Tables) : Parse TypeRef := do
  let type ← readType t .lowest
  let _ ← expect .endOfInput
  return type

end Parse

/-- The run that reads a program from tokens (`parse`). -/
def parseRun (tokens : List Token) : Run Program := .ofTokens (Parse.program .standard) tokens

/-- The run that reads a type from tokens (`parse_type_annotation`). -/
def parseTypeRun (tokens : List Token) : Run TypeRef := .ofTokens (Parse.wholeType .standard) tokens

/-- The program that the tokens write. -/
def parse (tokens : List Token) : Answer Program := (parseRun tokens).answer

/-- The type that the tokens write. -/
def parseType (tokens : List Token) : Answer TypeRef := (parseTypeRun tokens).answer

/-- The program that a source text writes (`parse_source`). -/
def parseSource (source : String) : Answer Program :=
  match tokenize source with
  | .ok tokens => parse tokens
  | .error cause => .fault cause

/-- The run that makes tokens from a source text (`tokenize` with its reports). Tokens are reported as they
are made, also those before a fault. -/
def tokenizeRun (source : String) : Run (List Token) :=
  match (Scanner.ofText source).loop with
  | some (.ok tokens, last) => ⟨.ok tokens, last.events⟩
  | some (.error cause, last) => ⟨.fault cause, last.events⟩
  | none => ⟨.endless, []⟩

end ScriptFront
