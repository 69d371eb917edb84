import ScriptFront.Double.Decimal

/-!
# Whole parts and fractions

What a value is beyond its whole part, and the whole part as a word of 64 bits. Both count a value in the
smallest unit, of which a whole number is a multiple of `2 ^ unitHalvings`.
-/

namespace ScriptFront.Double

/-- What a value is beyond its whole part, with the sign of the value unless it is zero (the `fract` of
`group_size`). It is a value itself, so nothing is lost where it is rounded; what is not finite has no such
part. -/
def fract (d : Double) : Double :=
  if d.isFinite then
    let rest := units d.magnitude % 1 <<< unitHalvings
    ⟨d.negative && rest != 0, nearest rest (1 <<< unitHalvings), lt_of_le_infinite (nearest_le _ _)⟩
  else nan false

/-- The whole part of a value; zero for what is negative or not a number, and the last word for what is too
large (the cast at the end of `group_size`). -/
def toUInt64 (d : Double) : UInt64 :=
  if d.isNaN || d.negative then 0 else .ofNatClamp (units d.magnitude >>> unitHalvings)

end ScriptFront.Double
