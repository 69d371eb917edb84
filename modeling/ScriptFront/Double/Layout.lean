import ScriptFront.Double.Shortest

/-!
# Writing numbers

A number is written by its shortest digits. A layout decides the rest: for which powers of ten the
digits stand in their places, all others taking an exponent, and whether a whole number shows a
fraction.
-/

namespace ScriptFront

/-- How digits are laid out. -/
structure Layout where
  /-- The leading powers of ten that are written out, from the first up to but not including the
  second; without bounds, all of them. -/
  positional : Option (Int × Int)
  /-- A whole number ends in `.0`. -/
  showsFraction : Bool

/-- In messages every digit stands in its place. -/
def Layout.plain : Layout := ⟨none, false⟩

/-- In dumps a number is seen to be one with a fraction, and extreme ones take an exponent. -/
def Layout.dump : Layout := ⟨some (-4, 16), true⟩

namespace Decimal

/-- Digits in their places. -/
def positional (showsFraction : Bool) (d : Decimal) : String :=
  let ds := Nat.toDigits 10 d.digits
  let point := d.exponent + ds.length
  String.ofList <|
    if 0 ≤ d.exponent then
      ds ++ List.replicate d.exponent.toNat '0' ++ (if showsFraction then ['.', '0'] else [])
    else if 0 < point then ds.take point.toNat ++ '.' :: ds.drop point.toNat
    else '0' :: '.' :: List.replicate (-point).toNat '0' ++ ds

/-- One digit, the others after a point, and the power of ten. -/
def scientific (d : Decimal) : String :=
  let ds := Nat.toDigits 10 d.digits
  let fraction := if ds.length ≤ 1 then [] else '.' :: ds.drop 1
  String.ofList (ds.take 1 ++ fraction) ++ "e" ++ toString (d.exponent + ds.length - 1)

/-- The digits as the layout asks. -/
def write (layout : Layout) (d : Decimal) : String :=
  let leading := d.exponent + width d.digits - 1
  match layout.positional with
  | none => d.positional layout.showsFraction
  | some (first, last) =>
    if first ≤ leading ∧ leading < last then d.positional layout.showsFraction else d.scientific

end Decimal

/-- A number as text. -/
def Double.write (layout : Layout) (d : Double) : String :=
  if d.isNaN then "NaN"
  else
    (if d.negative then "-" else "") ++
      (if d.isFinite then (shortest d.magnitude).write layout else "inf")

end ScriptFront
