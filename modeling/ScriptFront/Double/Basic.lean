/-!
# Double precision numbers

A number literal denotes a binary number of 53 significant bits. A value is kept as its sign and
its magnitude word: the 63 bits below the sign, read as a natural number. Magnitude words are ordered as
the values they stand for, the word after a value's is the next value up, and the words above the one
of infinity are not numbers.
-/

namespace ScriptFront

/-- A sign and a magnitude word. -/
@[ext]
structure Double where
  negative : Bool
  magnitude : Nat
  magnitude_lt : magnitude < 1 <<< 63
deriving DecidableEq, Repr

namespace Double

/-- The least magnitude word that stands for no finite value. -/
def infiniteMagnitude : Nat := 0x7ff <<< 52

/-- Every finite value is a whole number of units of this many halvings of one. -/
def unitHalvings : Nat := 1074

/-- The zero without a sign. -/
def zero : Double := ⟨false, 0, by decide⟩

/-- The infinite value of the given sign. -/
def infinity (negative : Bool) : Double := ⟨negative, infiniteMagnitude, by decide⟩

/-- A word that is not a number. -/
def nan (negative : Bool) : Double := ⟨negative, infiniteMagnitude + 1 <<< 51, by decide⟩

/-- The word stands for no number. -/
def isNaN (d : Double) : Bool := infiniteMagnitude < d.magnitude

/-- The word stands for a finite value. -/
def isFinite (d : Double) : Bool := d.magnitude < infiniteMagnitude

/-- The value with the opposite sign (the minus of `literal_size`). -/
def neg (d : Double) : Double := { d with negative := !d.negative }

/-- The 64 bits as a number: the sign on top, the magnitude word below. -/
def bits (d : Double) : Nat := (if d.negative then 1 <<< 63 else 0) + d.magnitude

/-- The significant bits of a magnitude word. -/
def mantissa (magnitude : Nat) : Nat :=
  if magnitude < 1 <<< 52 then magnitude else 1 <<< 52 + magnitude % 1 <<< 52

/-- How often the mantissa of a magnitude word is doubled. -/
def exponent (magnitude : Nat) : Nat :=
  if magnitude < 1 <<< 52 then 0 else magnitude >>> 52 - 1

/-- The size of a finite value in the smallest unit, `2 ^ unitHalvings` of which make one. -/
def units (magnitude : Nat) : Nat := mantissa magnitude <<< exponent magnitude

/-- Equality of numbers: the two zeros are equal, and what is not a number equals nothing. -/
def same (a b : Double) : Bool :=
  !a.isNaN && !b.isNaN && (a == b || (a.magnitude == 0 && b.magnitude == 0))

/-- The magnitude word with the sign, which orders the numbers; both zeros come to the same. -/
def order (d : Double) : Int := if d.negative then -(d.magnitude : Int) else d.magnitude

/-- The order of numbers (the comparisons of `group_size`); what is not a number is neither less nor greater
than anything. -/
def lt (a b : Double) : Bool := !a.isNaN && !b.isNaN && a.order < b.order

end Double

end ScriptFront
