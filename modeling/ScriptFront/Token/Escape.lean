/-!
# Escapes in string literals

A backslash before one of `n t r \ 0` stands for a control character or itself, and `\x` with one or
two hexadecimal digits for the character of that number. Before anything else a backslash stands for
itself, so no literal is refused.
-/

namespace ScriptFront.Escape

/-- The value of a hexadecimal digit of either case. -/
def hexDigit? (c : Char) : Option Nat :=
  if '0' ≤ c ∧ c ≤ '9' then some (c.toNat - '0'.toNat)
  else if 'a' ≤ c ∧ c ≤ 'f' then some (c.toNat - 'a'.toNat + 10)
  else if 'A' ≤ c ∧ c ≤ 'F' then some (c.toNat - 'A'.toNat + 10)
  else none

/-- The number at the start of `cs` written in at most two hexadecimal digits, and how many were read. -/
def hexPair? : List Char → Option (Nat × Nat)
  | a :: b :: _ =>
    match hexDigit? a, hexDigit? b with
    | some x, some y => some (16 * x + y, 2)
    | some x, none => some (x, 1)
    | none, _ => none
  | [a] => (hexDigit? a).map (·, 1)
  | [] => none

/-- The character that a backslash before `cs` stands for, and how many characters of `cs` belong to
the escape. -/
def read? : List Char → Option (Char × Nat)
  | 'n' :: _ => some ('\n', 1)
  | 't' :: _ => some ('\t', 1)
  | 'r' :: _ => some ('\r', 1)
  | '\\' :: _ => some ('\\', 1)
  | '0' :: _ => some ('\x00', 1)
  | 'x' :: cs => (hexPair? cs).map fun (n, used) => (Char.ofNat n, used + 1)
  | _ => none

end ScriptFront.Escape

namespace ScriptFront

/-- The text that the inside of a string literal denotes (`unescape`). -/
def unescape : List Char → List Char
  | [] => []
  | c :: cs =>
    if c = '\\' then
      match Escape.read? cs with
      | some (d, used) => d :: unescape (cs.drop used)
      | none => c :: unescape cs
    else c :: unescape cs
termination_by cs => cs.length
decreasing_by all_goals (simp only [List.length_cons, List.length_drop]; omega)

end ScriptFront
