import ScriptFront.Parse.Stream

/-!
# Parsers

A parser reads from a stream and ends with a value or a fault, in either case at some place of the
stream. The third outcome, `Outcome.endless`, stands for a run that would go on for ever without
reading a token; it keeps every parser a total function, and no table that can be built lets
expressions or types come to it.

Repetition is `Parse.loop`: rounds follow each other for as long as each leaves fewer tokens. What is read
inside a level of nesting is `Parse.nested`, which closes the level again however the reading ends;
`Parse.inside` is how a reader uses itself there.
-/

namespace ScriptFront

/-- How a run ends. -/
inductive Outcome (α : Type) where
  | done (value : α) (stream : Stream)
  | fault (cause : Fault) (stream : Stream)
  | endless

/-- A run from a place in a stream. -/
def Parse (α : Type) : Type := Stream → Outcome α

namespace Parse

variable {α β : Type}

instance : Monad Parse where
  pure a := fun s => .done a s
  bind p f := fun s =>
    match p s with
    | .done a s' => f a s'
    | .fault cause s' => .fault cause s'
    | .endless => .endless

theorem pure_apply (a : α) (s : Stream) : (pure a : Parse α) s = .done a s := rfl

theorem bind_done {p : Parse α} {f : α → Parse β} {s s' : Stream} {a : α}
    (h : p s = .done a s') : (p >>= f) s = f a s' := by
  show (match p s with
    | .done a s' => f a s'
    | .fault cause s' => .fault cause s'
    | .endless => .endless) = f a s'
  rw [h]

theorem bind_fault {p : Parse α} {f : α → Parse β} {s s' : Stream} {cause : Fault}
    (h : p s = .fault cause s') : (p >>= f) s = .fault cause s' := by
  show (match p s with
    | .done a s' => f a s'
    | .fault cause s' => .fault cause s'
    | .endless => .endless) = .fault cause s'
  rw [h]

theorem bind_endless {p : Parse α} {f : α → Parse β} {s : Stream} (h : p s = .endless) :
    (p >>= f) s = .endless := by
  show (match p s with
    | .done a s' => f a s'
    | .fault cause s' => .fault cause s'
    | .endless => .endless) = .endless
  rw [h]

/-- Stops with a fault. -/
def fail (cause : Fault) : Parse α := fun s => .fault cause s

/-- Never ends. -/
def never : Parse α := fun _ => .endless

/-- The current token, which stays (`current_token`). -/
def current : Parse Token := fun s => .done s.current s

/-- The kind of the current token (`current_token_kind`). -/
def kind : Parse Kind := fun s => .done s.current.kind s

/-- Passes the current token and returns it (`advance`). -/
def advance : Parse Token := fun s => .done s.current s.advance

/-- Reports an event. -/
def record (event : Event) : Parse Unit := fun s => .done () (s.record event)

/-- Passes a token of the expected kind; any other is a fault, which `cause` gives (`expect_error`). -/
def expectOr (expected : Kind) (cause : Token → Fault) : Parse Token := fun s =>
  if s.current.kind = expected then .done s.current s.advance else .fault (cause s.current) s

/-- Passes a token of the expected kind (`expect`). -/
def expect (expected : Kind) : Parse Token :=
  expectOr expected fun t => .unexpected expected t.kind t.lexeme

/-- Passes a token of the expected kind, for the given reason (`expect_error` with a message). -/
def expectFor (expected : Kind) (reason : String) : Parse Token :=
  expectOr expected fun t => .unexpectedBecause expected t.kind reason

/-- Opens a level of nesting, unless as many are open as there may be (`enter_nesting`). -/
def enter : Parse Unit := fun s =>
  if s.depth < maxNesting then .done () s.enter else .fault (.tooDeep maxNesting) s

/-- Closes a level of nesting, if one is open (`leave_nesting`). -/
def leave : Parse Unit := fun s => .done () s.leave

/-- Runs the parser and closes a level of nesting after its value or its fault. -/
def leaving (p : Parse α) : Parse α := fun s =>
  match p s with
  | .done a s' => .done a s'.leave
  | .fault cause s' => .fault cause s'.leave
  | .endless => .endless

/-- Runs the parser in a level of nesting of its own (`parse_pratt` around `climb`, and `parse_block_stmt`
around `parse_block_body`). -/
def nested (p : Parse α) : Parse α := do
  enter
  leaving p

/-- A reader's use of itself in what it started to read at `s`. With no more levels open than there were
at `s`, it could use itself in the same way for ever. -/
def inside (s : Stream) (read : (s' : Stream) → s'.room < s.room → Outcome α) : Parse α := fun s' =>
  if h : s'.room < s.room then read s' h else .endless

/-- Whether to go on after a round of a loop. -/
inductive Round (α : Type) where
  | again (value : α)
  | over (value : α)

/-- Repeats the round until it is over. A round that asks for another without having read a token
would be followed by the same round for ever. -/
def loop (round : α → Parse (Round α)) (a : α) : Parse α := fun s =>
  match round a s with
  | .done (.over b) s' => .done b s'
  | .done (.again b) s' => if s'.remaining < s.remaining then loop round b s' else .endless
  | .fault cause s' => .fault cause s'
  | .endless => .endless
termination_by s => s.remaining

theorem loop_over {round : α → Parse (Round α)} {a b : α} {s s' : Stream}
    (h : round a s = .done (.over b) s') : loop round a s = .done b s' := by
  rw [loop, h]

theorem loop_again {round : α → Parse (Round α)} {a b : α} {s s' : Stream}
    (h : round a s = .done (.again b) s') (shorter : s'.remaining < s.remaining) :
    loop round a s = loop round b s' := by
  rw [loop, h]
  exact if_pos shorter

theorem loop_fault {round : α → Parse (Round α)} {a : α} {s s' : Stream} {cause : Fault}
    (h : round a s = .fault cause s') : loop round a s = .fault cause s' := by
  rw [loop, h]

end Parse

end ScriptFront
