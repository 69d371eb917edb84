import ScriptFront.Double.Decimal

/-!
# The shortest decimal that reads back

All reals between the halfway points to a value's two neighbours round to that value, and the halfway
points themselves do when its mantissa is even. `Double.shortest` looks for a decimal in that interval
on coarser grids first, so that it has the fewest digits; of two on one grid it takes the nearer, and
the upper if neither is.
-/

namespace ScriptFront

namespace Double

/-- The reals that round to a value, in quarters of its last bit: the interval from `low` to `high`
around `value`, ends included or not, and how often the quarters are doubled. -/
structure Span where
  low : Nat
  value : Nat
  high : Nat
  closed : Bool
  doublings : Nat

/-- The interval of a magnitude word. The gap below a power of two is half the gap above it. -/
def Span.ofMagnitude (magnitude : Nat) : Span :=
  let m := mantissa magnitude
  let e := exponent magnitude
  let below := if m = 1 <<< 52 ∧ 0 < e then 1 else 2
  ⟨4 * m - below, 4 * m, 4 * m + 2, m % 2 == 0, e⟩

/-- The decimal with the given exponent that lies in the interval and nearest to the value, if there
is one. -/
def Span.onGrid? (s : Span) (place : Int) : Option Decimal :=
  let scale := Nat.pow 10 (-place).toNat <<< s.doublings
  let step := Nat.pow 10 place.toNat <<< (unitHalvings + 2)
  let value := s.value * scale
  let down := value / step
  let inside (n : Nat) : Bool :=
    if s.closed then decide (s.low * scale ≤ n * step) && decide (n * step ≤ s.high * scale)
    else decide (s.low * scale < n * step) && decide (n * step < s.high * scale)
  let upper := decide (step ≤ 2 * (value % step))
  match inside down, inside (down + 1) with
  | true, true => some ⟨if upper then down + 1 else down, place⟩
  | true, false => some ⟨down, place⟩
  | false, true => some ⟨down + 1, place⟩
  | false, false => none

/-- The shortest decimal that rounds to a finite magnitude word. The search starts above the value and
goes down to a grid finer than any value needs; the value's own expansion stands behind it. -/
def shortest (magnitude : Nat) : Decimal :=
  if magnitude = 0 then ⟨0, 0⟩
  else
    let start := Decimal.width (units magnitude >>> unitHalvings)
    let places := (List.range (start + 325)).map fun (i : Nat) => (start : Int) - i
    (places.findSome? (Span.ofMagnitude magnitude).onGrid?).getD
      ⟨units magnitude * Nat.pow 5 unitHalvings, -unitHalvings⟩

end Double

end ScriptFront
