import ScriptFront.Text.Ranges

/-!
# Blank characters

The characters that separate tokens and mean nothing else: the Unicode property `White_Space`.
-/

namespace ScriptFront.Text

/-- The ranges of `White_Space`. -/
def blankRanges : List (Nat × Nat) :=
  [(0x9, 0xd), (0x20, 0x20), (0x85, 0x85), (0xa0, 0xa0), (0x1680, 0x1680), (0x2000, 0x200a),
   (0x2028, 0x2029), (0x202f, 0x202f), (0x205f, 0x205f), (0x3000, 0x3000)]

/-- A character that separates tokens. -/
def isBlank (c : Char) : Bool := inRanges blankRanges c

end ScriptFront.Text
