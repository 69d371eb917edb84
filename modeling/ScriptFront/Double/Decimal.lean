import ScriptFront.Double.Basic

/-!
# Decimal numbers

A decimal number is a natural number times a power of ten. `Decimal.read?` reads one from text, and
`Decimal.magnitude` rounds it to the nearest magnitude word, a tie going to the even one; a value
beyond the finite ones becomes infinite.
-/

namespace ScriptFront

/-- The number `digits * 10 ^ exponent`. -/
structure Decimal where
  digits : Nat
  exponent : Int
deriving DecidableEq, Repr

/-- The magnitude word nearest to `num / den`, a tie going to the even word. -/
def Double.nearest (num den : Nat) : Nat :=
  let scaled := num <<< unitHalvings
  let exponent := (scaled / den).log2 + 1 - 53
  let step := den <<< exponent
  let down := scaled / step
  let left := scaled % step
  let rounded := if step < 2 * left ∨ (2 * left = step ∧ down % 2 = 1) then down + 1 else down
  min infiniteMagnitude (exponent <<< 52 + rounded)

theorem Double.nearest_le (num den : Nat) : nearest num den ≤ infiniteMagnitude := Nat.min_le_left _ _

namespace Decimal

/-- The number of digits that write a natural number. -/
def width (n : Nat) : Nat := (Nat.toDigits 10 n).length

/-- The nearest magnitude word. What is certainly above the finite values or below half the least of
them is settled by its width alone, whatever the exponent. -/
def magnitude (d : Decimal) : Nat :=
  if d.digits = 0 then 0
  else if d.exponent + width d.digits > 310 then Double.infiniteMagnitude
  else if d.exponent + width d.digits < -330 then 0
  else Double.nearest (d.digits * Nat.pow 10 d.exponent.toNat) (Nat.pow 10 (-d.exponent).toNat)

theorem magnitude_le (d : Decimal) : d.magnitude ≤ Double.infiniteMagnitude := by
  unfold magnitude
  split
  · exact Nat.zero_le _
  · split
    · exact Nat.le_refl _
    · split
      · exact Nat.zero_le _
      · exact Double.nearest_le _ _

/-- An exponent that has come this far is out of all proportion, and its further digits are left
unread. -/
def exponentCap : Nat := 1 <<< 16

/-- The number that the digits of an exponent write, read up to the cap. -/
def exponentValue (cs : List Char) : Nat :=
  cs.foldl (fun n c => if n < exponentCap then 10 * n + (c.toNat - '0'.toNat) else n) 0

/-- The digits of an exponent, of which there has to be one. -/
def readExponentDigits? (cs : List Char) : Option Nat :=
  if cs ≠ [] ∧ cs.all Char.isDigit then some (exponentValue cs) else none

/-- An exponent part, or nothing at all. -/
def readExponent? : List Char → Option Int
  | [] => some 0
  | c :: cs =>
    if c = 'e' ∨ c = 'E' then
      match cs with
      | '-' :: ds => (readExponentDigits? ds).map fun n => -(n : Int)
      | '+' :: ds => (readExponentDigits? ds).map fun n => (n : Int)
      | ds => (readExponentDigits? ds).map fun n => (n : Int)
    else none

/-- The digits after a point at the front, and what follows them. -/
def splitFraction : List Char → List Char × List Char
  | '.' :: cs => (cs.takeWhile Char.isDigit, cs.dropWhile Char.isDigit)
  | cs => ([], cs)

/-- Digits with at most one point among or around them, at least one digit in all, then perhaps an
exponent. -/
def read? (cs : List Char) : Option Decimal :=
  let whole := cs.takeWhile Char.isDigit
  let (fraction, rest) := splitFraction (cs.dropWhile Char.isDigit)
  if whole = [] ∧ fraction = [] then none
  else
    (readExponent? rest).map fun e =>
      ⟨Nat.ofDigitChars 10 (whole ++ fraction) 0, e - fraction.length⟩

end Decimal

namespace Double

theorem lt_of_le_infinite {magnitude : Nat} (h : magnitude ≤ infiniteMagnitude) : magnitude < 1 <<< 63 :=
  Nat.lt_of_le_of_lt h (by decide)

/-- The value nearest to a decimal number, with the given sign. -/
def ofDecimal (negative : Bool) (d : Decimal) : Double :=
  ⟨negative, d.magnitude, lt_of_le_infinite d.magnitude_le⟩

/-- The value nearest to a natural number (the cast of the largest size in `group_size`). -/
def ofNat (n : Nat) : Double := ofDecimal false ⟨n, 0⟩

/-- The number written after a sign: a decimal, or a word for what is not finite in any case. -/
def readUnsigned? (negative : Bool) (cs : List Char) : Option Double :=
  match Decimal.read? cs with
  | some d => some (ofDecimal negative d)
  | none =>
    let word := String.ofList (cs.map Char.toLower)
    if word = "inf" ∨ word = "infinity" then some (infinity negative)
    else if word = "nan" then some (nan negative)
    else none

/-- The number that a text denotes: a sign perhaps, then the number itself (what `parse_primary_expr` asks of
a number). -/
def read? (text : String) : Option Double :=
  match text.toList with
  | '-' :: cs => readUnsigned? true cs
  | '+' :: cs => readUnsigned? false cs
  | cs => readUnsigned? false cs

end Double

end ScriptFront
