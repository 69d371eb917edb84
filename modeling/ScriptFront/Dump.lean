import ScriptFront.Text.Quoted

/-!
# Dumps

The shape of a value as text: a name or a literal, or a bracketed list of parts, some of them
labelled. A dump is written on one line or with each part on a line of its own.
-/

namespace ScriptFront

/-- The shape of a value. -/
inductive Dump where
  /-- Text without parts. -/
  | atom (text : String)
  /-- A part with a label before it. -/
  | labelled (label : String) (part : Dump)
  /-- Parts between brackets, which stand off from them on a single line if `spaced`. -/
  | node (opening : String) (spaced : Bool) (parts : List Dump) (closing : String)

namespace Dump

/-- A named value with labelled parts. -/
def record (name : String) (fields : List (String × Dump)) : Dump :=
  node (name ++ " \x7b") true (fields.map fun f => labelled f.1 f.2) "\x7d"

/-- A named value around another one. -/
def wrap (name : String) (part : Dump) : Dump := node (name ++ "(") false [part] ")"

/-- A list of values. -/
def list (parts : List Dump) : Dump := node "[" false parts "]"

/-- A text literal. -/
def text (s : String) : Dump := atom (Text.quoted s)

/-- A natural number. -/
def nat (n : Nat) : Dump := atom (toString n)

/-- A truth value. -/
def bool (b : Bool) : Dump := atom (if b then "true" else "false")

mutual

/-- The dump on one line. -/
def line : Dump → String
  | atom text => text
  | labelled label part => label ++ ": " ++ part.line
  | node opening spaced parts closing =>
    let gap := if spaced then " " else ""
    opening ++ gap ++ ", ".intercalate (lines parts) ++ gap ++ closing

/-- Each part on one line. -/
def lines : List Dump → List String
  | [] => []
  | part :: parts => part.line :: lines parts

end

/-- The start of a line at a depth of four columns each. -/
def margin (depth : Nat) : String := String.ofList (List.replicate (4 * depth) ' ')

mutual

/-- The dump with each part on lines of its own, set in by four columns more than its brackets. -/
def page (depth : Nat) : Dump → String
  | atom text => text
  | labelled label part => label ++ ": " ++ part.page depth
  | node opening _ [] closing => opening ++ closing
  | node opening _ (part :: parts) closing =>
    opening ++ "\n" ++ pages (depth + 1) (part :: parts) ++ margin depth ++ closing

/-- The lines of the parts, a comma after each. -/
def pages (depth : Nat) : List Dump → String
  | [] => ""
  | part :: parts => margin depth ++ part.page depth ++ ",\n" ++ pages depth parts

end

/-- The dump on one line, or spread over lines. -/
def write (spread : Bool) (d : Dump) : String := if spread then d.page 0 else d.line

end Dump

end ScriptFront
