import ScriptFront.Text.Hidden
import ScriptFront.Text.Extending

/-!
# Quoted text

How a text is shown inside a message or a dump: between double quotes, with the quote, the backslash
and four controls written by a letter after a backslash, and every other character that cannot be read
by eye written as its number in braces.
-/

namespace ScriptFront.Text

/-- A character by its number: `\u` and the hexadecimal code point in braces. -/
def numbered (c : Char) : String :=
  "\\u\x7b" ++ String.ofList (Nat.toDigits 16 c.toNat) ++ "\x7d"

/-- One character as it stands between the quotes. -/
def quotedChar (c : Char) : String :=
  match c with
  | '\x00' => "\\0"
  | '\t' => "\\t"
  | '\r' => "\\r"
  | '\n' => "\\n"
  | '"' => "\\\""
  | '\\' => "\\\\"
  | c => if isExtending c || isHidden c then numbered c else c.toString

/-- The text between double quotes, each character readable by eye. -/
def quoted (text : String) : String :=
  "\"" ++ String.join (text.toList.map quotedChar) ++ "\""

end ScriptFront.Text
