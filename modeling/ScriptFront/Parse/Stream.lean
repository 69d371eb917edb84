import ScriptFront.Event

/-!
# Token streams

The place of a run in its tokens: the token it looks at and those ahead of it. A stream is never
without a current token; the last one is never passed for good, so a run that reaches it stays there.
The stream also carries how many levels of nesting are open and the events of the run, the latest first.
-/

namespace ScriptFront

/-- The most levels of nesting that can be open at once (`MAX_NESTING_DEPTH`). -/
def maxNesting : Nat := 256

/-- A place in a list of tokens (`Parser`, without its tables). -/
structure Stream where
  /-- How many tokens lie behind. -/
  index : Nat
  /-- The token to be read next. -/
  current : Token
  /-- The tokens after it. -/
  ahead : List Token
  /-- How many tokens there are after it. -/
  remaining : Nat
  /-- How many levels of nesting are open. -/
  depth : Nat
  /-- The events so far, the latest first. -/
  log : List Event
  remaining_eq : remaining = ahead.length

namespace Stream

/-- The stream at its first token (`Parser::new`). A list that does not close with an end token is
refused. -/
def ofTokens : List Token → Except Fault Stream
  | [] => .error .unterminated
  | t :: ts =>
    if ((t :: ts).getLast (List.cons_ne_nil t ts)).kind = .endOfInput then
      .ok ⟨0, t, ts, ts.length, 0, [], rfl⟩
    else .error .unterminated

/-- The tokens that are left, the current one first. -/
def rest (s : Stream) : List Token := s.current :: s.ahead

/-- The stream with one more level of nesting open. -/
def enter (s : Stream) : Stream := { s with depth := s.depth + 1 }

/-- The stream with one level of nesting less, if one is open. -/
def leave (s : Stream) : Stream := { s with depth := s.depth - 1 }

/-- The levels of nesting that may still be opened. -/
def room (s : Stream) : Nat := maxNesting - s.depth

/-- The stream with one more event. -/
def record (s : Stream) (event : Event) : Stream := { s with log := event :: s.log }

/-- The stream at the next token, or at the same one if it is the last (`advance`). -/
def advance (s : Stream) : Stream :=
  let log := .advanced s.index s.current.kind :: s.log
  match h : s.ahead with
  | [] => { s with log }
  | t :: ts =>
    ⟨s.index + 1, t, ts, s.remaining - 1, s.depth, log,
      by have := s.remaining_eq; simp [h] at this; omega⟩

/-- The events in the order in which they happened. -/
def events (s : Stream) : List Event := s.log.reverse

/-- Passing a token that is not the last leaves the tokens after it. -/
theorem rest_advance {s : Stream} {t : Token} {ts : List Token} (h : s.ahead = t :: ts) :
    s.advance.rest = t :: ts := by
  unfold advance
  split
  · next h' => simp [h] at h'
  · next h' =>
    rw [h] at h'
    injection h' with h1 h2
    simp [rest, h1, h2]

/-- The last token stays. -/
theorem rest_advance_last {s : Stream} (h : s.ahead = []) : s.advance.rest = s.rest := by
  unfold advance
  split
  · rfl
  · next h' => simp [h] at h'

@[simp] theorem log_advance (s : Stream) :
    s.advance.log = .advanced s.index s.current.kind :: s.log := by
  unfold advance
  split <;> rfl

end Stream

end ScriptFront
