import ScriptFront.Event
import ScriptFront.Text.Cursor
import ScriptFront.Token.Rule

/-!
# Scanning with a cursor

A scanner keeps the source and the number of bytes that are used up, so it has to cut the source at byte
positions: for the text that is left, for the text of a token and for what stands between the quotes of a
string. Each token is reported as it is made. The loop takes one turn after the other, and a cut that is not
possible would leave it without an answer.
-/

namespace ScriptFront

open Text (byteLength slice?)

namespace Rule

/-- How many bytes the rule takes at the front of the text, if it applies. -/
def matchBytes? (rule : Rule) (cs : List Char) : Option Nat :=
  (rule.matchLength? cs).map fun n => byteLength (cs.take n)

/-- The first rule that applies at the front of the text, and how many bytes it takes. -/
def firstBytes? (cs : List Char) : Option (Rule × Nat) :=
  all.findSome? fun rule => (rule.matchBytes? cs).map (rule, ·)

/-- What the rule makes of the next `len` bytes, if they can be cut out. Blanks and comments are not cut
out (`skip_handler`), and a string is cut once more for what stands between its quotes
(`string_handler`). -/
def cut? (rule : Rule) (c : Text.Cursor) (len : Nat) : Option (Option Token) :=
  match rule with
  | blank | comment => some none
  | quoted =>
    (c.taken? len).bind fun text =>
      (slice? 1 (len - 1) text.toList).map fun raw =>
        some ⟨.string, String.ofList (unescape raw)⟩
  | word | number | mark _ => (c.taken? len).map fun text => rule.token? text.toList

end Rule

/-- A cursor in the source, the tokens made so far and what was reported, each with the last one first
(`Lexer`). -/
structure Scanner where
  cursor : Text.Cursor
  tokens : List Token
  log : List Event

namespace Scanner

/-- The scanner at the start of a source (`Lexer::new`). -/
def ofText (source : String) : Scanner := ⟨.ofText source, [], []⟩

/-- What was reported, in order. -/
def events (l : Scanner) : List Event := l.log.reverse

/-- The scanner with an event reported. -/
def record (l : Scanner) (event : Event) : Scanner := { l with log := event :: l.log }

/-- The scanner with a token made, which it reports (`push`). -/
def push (l : Scanner) (token : Token) : Scanner :=
  { l.record (.pushed token) with tokens := token :: l.tokens }

/-- The scanner behind a match of `len` bytes, which made the token or none. -/
def pass (l : Scanner) (token? : Option Token) (len : Nat) : Scanner :=
  let l := token?.elim l l.push
  { l with cursor := l.cursor.advance len }

/-- What comes of a turn of the loop. -/
inductive Turn where
  /-- The source had to be cut where it cannot be. -/
  | badCut
  | finished (result : Except Fault (List Token)) (last : Scanner)
  | again (next : Scanner)

/-- One turn: the first rule that applies makes its token, and the cursor moves over the match. At the end of
the source the end token is made (the loop of `tokenize` and what follows it). -/
def turn (l : Scanner) : Turn :=
  if l.cursor.atEnd then
    let last := l.push .endOfInput
    .finished (.ok last.tokens.reverse) (last.record (.tokenized last.tokens.length))
  else
    match l.cursor.remainder? with
    | none => .badCut
    | some rest =>
      match Rule.firstBytes? rest.toList with
      | none => .finished (.error (.unrecognised rest)) l
      | some (rule, len) =>
        match rule.cut? l.cursor len with
        | none => .badCut
        | some token? => .again (l.pass token? len)

/-- Takes turns until one is the last. There is no answer if a turn makes a bad cut, or if it asks for
another one without having used up a byte: it would be followed by the same turn for ever. -/
def loop (l : Scanner) : Option (Except Fault (List Token) × Scanner) :=
  match l.turn with
  | .badCut => none
  | .finished result last => some (result, last)
  | .again next => if next.cursor.left < l.cursor.left then loop next else none
termination_by l.cursor.left

end Scanner

end ScriptFront
