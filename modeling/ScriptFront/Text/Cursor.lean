import ScriptFront.Text.Slice

/-!
# A cursor in a text

A text and a number of bytes from its start. The cursor moves freely; only what is read at it has to
start and end between characters, and it has no answer otherwise.
-/

namespace ScriptFront.Text

/-- A text and a byte position, which need not lie between two characters or in the text at all (the source
and the position of a `Lexer`). -/
structure Cursor where
  text : List Char
  position : Nat

namespace Cursor

/-- The cursor at the start of a text. -/
def ofText (source : String) : Cursor := ⟨source.toList, 0⟩

/-- The cursor `n` bytes further on (`advance_n`). -/
def advance (c : Cursor) (n : Nat) : Cursor := { c with position := c.position + n }

/-- The text from the cursor on (`remainder`). -/
def remainder? (c : Cursor) : Option String := (dropBytes? c.position c.text).map String.ofList

/-- The `n` bytes at the cursor (`matched`). -/
def taken? (c : Cursor) (n : Nat) : Option String :=
  (dropBytes? c.position c.text).bind fun cs => (takeBytes? n cs).map String.ofList

/-- No text is left at the cursor (`at_eof`). -/
def atEnd (c : Cursor) : Bool := byteLength c.text ≤ c.position

/-- How many bytes are left at the cursor. -/
def left (c : Cursor) : Nat := byteLength c.text - c.position

end Cursor

end ScriptFront.Text
