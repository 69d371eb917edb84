import Mathlib.Algebra.Order.Field.Rat
import Mathlib.Data.Rat.Floor
import Mathlib.Tactic.NormNum
import Mathlib.Tactic.Ring
import ScriptFront.Double.Whole
import ScriptFront.Proofs.Double

/-!
# The exact values of doubles

A finite double stands for an exact rational number (`Double.value?`), given by the fields of its word. What
is computed with doubles is here compared with the numbers that they stand for: the opposite of a double
stands for the opposite number, comparisons are those of numbers, the fraction is what is left of a number
beyond its whole part, and the cast to a word of 64 bits is the whole part as far as it fits. The infinite
values and the words that are not numbers stand for nothing.
-/

namespace ScriptFront.Double

/-- The exact number that a finite magnitude word stands for: a fraction of 52 bits, with a one before it
above the least exponent, times a power of two. -/
def magnitudeValue (magnitude : Nat) : ℚ :=
  if magnitude < 2 ^ 52 then magnitude / 2 ^ 52 * 2 ^ (-1022 : ℤ)
  else (1 + (magnitude % 2 ^ 52 : Nat) / 2 ^ 52) * 2 ^ ((magnitude / 2 ^ 52 : Nat) - 1023 : ℤ)

/-- The exact number that a finite word stands for; the two zeros stand for the same number. -/
def value? (d : Double) : Option ℚ :=
  if d.isFinite then some ((if d.negative then -1 else 1) * magnitudeValue d.magnitude) else none

variable {a b d : Double} {n : Nat} {x y : ℚ}

/-! ## Values in units -/

/-- A magnitude word stands for so many units. -/
theorem magnitudeValue_eq (magnitude : Nat) :
    magnitudeValue magnitude = units magnitude / (2 ^ unitHalvings : Nat) := by
  have hunits : (units magnitude : ℚ) / (2 ^ unitHalvings : Nat) =
      mantissa magnitude * 2 ^ ((exponent magnitude : ℤ) - unitHalvings) := by
    rw [units_eq, zpow_sub₀ two_ne_zero, zpow_natCast, zpow_natCast, Nat.cast_mul, Nat.cast_pow, Nat.cast_pow,
      Nat.cast_ofNat, mul_div_assoc]
  have hfraction : (2 : ℚ) ^ (52 : ℤ) = 2 ^ 52 := zpow_natCast 2 52
  -- The mantissa is the fraction shifted up, so that the exponents differ by the bits of the fraction.
  rw [hunits, magnitudeValue, mantissa_eq, exponent_eq]
  split
  · have hexponent : ((0 : Nat) : ℤ) - unitHalvings = -1022 - 52 := rfl
    rw [hexponent, zpow_sub₀ two_ne_zero, hfraction]
    generalize (2 : ℚ) ^ (-1022 : ℤ) = scale
    ring
  · have hexponent : ((magnitude / 2 ^ 52 - 1 : Nat) : ℤ) - unitHalvings =
        (magnitude / 2 ^ 52 : Nat) - 1023 - 52 := by
      rw [unitHalvings]
      omega
    rw [hexponent, zpow_sub₀ two_ne_zero _ 52, hfraction]
    generalize (2 : ℚ) ^ (((magnitude / 2 ^ 52 : Nat) : ℤ) - 1023) = scale
    push_cast
    ring

theorem magnitudeValue_zero : magnitudeValue 0 = 0 := by
  rw [magnitudeValue_eq, units_of_lt (by decide), Nat.cast_zero, zero_div]

theorem magnitudeValue_strictMono : StrictMono magnitudeValue := by
  intro a b h
  have hunit : (0 : ℚ) < (2 ^ unitHalvings : Nat) := Nat.cast_pos.2 (Nat.pow_pos (by omega))
  rw [magnitudeValue_eq, magnitudeValue_eq]
  exact div_lt_div_of_pos_right (Nat.cast_lt.2 (units_lt_units h)) hunit

theorem magnitudeValue_nonneg (magnitude : Nat) : 0 ≤ magnitudeValue magnitude :=
  magnitudeValue_zero ▸ magnitudeValue_strictMono.monotone (Nat.zero_le magnitude)

theorem value?_eq_some_iff : d.value? = some x ↔
    d.isFinite = true ∧ x = (if d.negative then -1 else 1) * magnitudeValue d.magnitude := by
  unfold value?
  split
  · next hfinite => rw [Option.some.injEq, eq_comm, and_iff_right hfinite]
  · next hfinite => simp [hfinite]

theorem isNaN_of_value? (h : d.value? = some x) : d.isNaN = false := by
  have hfinite := (value?_eq_some_iff.1 h).1
  simp only [isFinite, isNaN, decide_eq_true_eq, decide_eq_false_iff_not] at hfinite ⊢
  omega

theorem value?_zero : zero.value? = some 0 :=
  value?_eq_some_iff.2 ⟨by decide, by simp [zero, magnitudeValue_zero]⟩

/-- A word stands for a natural number exactly if it is that number. -/
theorem value?_eq_natCast_iff : d.value? = some (n : ℚ) ↔ d.IsNat n := by
  have hunit : 0 < 2 ^ unitHalvings := Nat.pow_pos (by omega)
  rw [value?_eq_some_iff, magnitudeValue_eq]
  unfold IsNat
  generalize 2 ^ unitHalvings = unit at hunit
  generalize units d.magnitude = size
  have hscaled : (n : ℚ) = size / unit ↔ size = n * unit := by
    rw [eq_comm, div_eq_iff (by exact_mod_cast hunit.ne'), ← Nat.cast_mul, Nat.cast_inj]
  -- Only zero is a natural number and the opposite of one.
  have hopposite : (n : ℚ) = -(size / unit) ↔ n = 0 ∧ size = n * unit := by
    constructor
    · intro h
      have hnonneg : 0 ≤ (size : ℚ) / unit := div_nonneg (Nat.cast_nonneg _) (Nat.cast_nonneg _)
      have hzero : (n : ℚ) = 0 := le_antisymm (h ▸ neg_nonpos.2 hnonneg) (Nat.cast_nonneg n)
      obtain rfl : n = 0 := Nat.cast_eq_zero.1 hzero
      refine ⟨rfl, hscaled.1 ?_⟩
      rw [Nat.cast_zero, ← neg_eq_zero.1 (h.symm.trans Nat.cast_zero)]
    · rintro ⟨rfl, h⟩
      rw [← hscaled.2 h, Nat.cast_zero, neg_zero]
  cases hsign : d.negative with
  | false => simp [hscaled]
  | true => simp [hopposite]

/-! ## Operations on values -/

/-- The opposite of a double stands for the opposite number, and for none if the double does. -/
theorem value?_neg (d : Double) : d.neg.value? = d.value?.map Neg.neg := by
  have hfinite : d.neg.isFinite = d.isFinite := rfl
  unfold value?
  rw [hfinite]
  cases d.isFinite <;> cases hsign : d.negative <;> simp [neg, hsign]

theorem value_lt_of_order_lt (ha : a.value? = some x) (hb : b.value? = some y) (h : a.order < b.order) :
    x < y := by
  obtain ⟨-, rfl⟩ := value?_eq_some_iff.1 ha
  obtain ⟨-, rfl⟩ := value?_eq_some_iff.1 hb
  have hmono {m k : Nat} (hlt : m < k) := magnitudeValue_strictMono hlt
  have hpos {m : Nat} (hlt : 0 < m) : 0 < magnitudeValue m := magnitudeValue_zero ▸ hmono hlt
  have hnonneg := magnitudeValue_nonneg a.magnitude
  have hnonneg' := magnitudeValue_nonneg b.magnitude
  unfold order at h
  cases hsign : a.negative <;> cases hsign' : b.negative <;>
    simp only [hsign, hsign', Bool.false_eq_true, if_true, if_false, neg_one_mul, one_mul] at h ⊢
  · exact hmono (by omega)
  · omega
  · rcases Nat.eq_zero_or_pos a.magnitude with hzero | hlt
    · have hlt' := hpos (m := b.magnitude) (by omega)
      linarith
    · have hlt' := hpos hlt
      linarith
  · exact neg_lt_neg (hmono (by omega))

theorem value_eq_of_order_eq (ha : a.value? = some x) (hb : b.value? = some y) (h : a.order = b.order) :
    x = y := by
  obtain ⟨-, rfl⟩ := value?_eq_some_iff.1 ha
  obtain ⟨-, rfl⟩ := value?_eq_some_iff.1 hb
  unfold order at h
  have hmagnitude : a.magnitude = b.magnitude := by
    split at h <;> split at h <;> omega
  by_cases hzero : b.magnitude = 0
  · rw [hmagnitude, hzero, magnitudeValue_zero, mul_zero, mul_zero]
  · have hsign : a.negative = b.negative := by
      split at h <;> split at h <;> first | omega | simp_all
    rw [hmagnitude, hsign]

/-- Numbers are ordered as the words with their signs. -/
theorem order_lt_iff (ha : a.value? = some x) (hb : b.value? = some y) : a.order < b.order ↔ x < y := by
  constructor
  · exact value_lt_of_order_lt ha hb
  · intro h
    rcases lt_trichotomy a.order b.order with hlt | heq | hgt
    · exact hlt
    · exact absurd (value_eq_of_order_eq ha hb heq) h.ne
    · exact absurd (value_lt_of_order_lt hb ha hgt) h.asymm

theorem order_eq_iff (ha : a.value? = some x) (hb : b.value? = some y) : a.order = b.order ↔ x = y := by
  constructor
  · exact value_eq_of_order_eq ha hb
  · intro h
    have hlt := order_lt_iff ha hb
    have hgt := order_lt_iff hb ha
    subst h
    exact le_antisymm (not_lt.1 (hgt.not.2 (lt_irrefl x))) (not_lt.1 (hlt.not.2 (lt_irrefl x)))

/-- Doubles are compared as the numbers that they stand for. -/
theorem lt_iff (ha : a.value? = some x) (hb : b.value? = some y) : a.lt b = true ↔ x < y := by
  simp [lt, isNaN_of_value? ha, isNaN_of_value? hb, order_lt_iff ha hb]

theorem order_eq_iff_magnitude : a.order = b.order ↔ a = b ∨ a.magnitude = 0 ∧ b.magnitude = 0 := by
  obtain ⟨s, m, hm⟩ := a
  obtain ⟨t, k, hk⟩ := b
  cases s <;> cases t <;> simp [order] <;> omega

/-- Equality of doubles is that of the numbers that they stand for. -/
theorem same_iff (ha : a.value? = some x) (hb : b.value? = some y) : a.same b = true ↔ x = y := by
  rw [← order_eq_iff ha hb, order_eq_iff_magnitude]
  simp [same, isNaN_of_value? ha, isNaN_of_value? hb]

/-! ## Whole parts and fractions -/

theorem fract_magnitude (h : d.isFinite = true) :
    d.fract.magnitude = nearest (units d.magnitude % 2 ^ unitHalvings) (2 ^ unitHalvings) := by
  rw [← Nat.one_shiftLeft, fract, if_pos h]

theorem fract_negative (h : d.isFinite = true) :
    d.fract.negative = (d.negative && units d.magnitude % 2 ^ unitHalvings != 0) := by
  rw [← Nat.one_shiftLeft, fract, if_pos h]

/-- The fraction of a finite double is the rest of its units, with nothing rounded away: they are its own
lowest bits. -/
theorem units_fract (h : d.isFinite = true) :
    d.fract.isFinite = true ∧ units d.fract.magnitude = units d.magnitude % 2 ^ unitHalvings := by
  have hunit : 0 < 2 ^ unitHalvings := Nat.pow_pos (by omega)
  obtain ⟨m, e, hm, he, hrest⟩ : ∃ m e, m < 2 ^ 53 ∧ e ≤ unitHalvings ∧
      units d.magnitude % 2 ^ unitHalvings = m * 2 ^ e := by
    rw [units_eq]
    rcases Nat.le_total (exponent d.magnitude) unitHalvings with hle | hge
    · have hsplit : 2 ^ unitHalvings =
          2 ^ (unitHalvings - exponent d.magnitude) * 2 ^ exponent d.magnitude := by
        rw [← Nat.pow_add, Nat.sub_add_cancel hle]
      refine ⟨mantissa d.magnitude % 2 ^ (unitHalvings - exponent d.magnitude), exponent d.magnitude, ?_,
        hle, ?_⟩
      · exact Nat.lt_of_le_of_lt (Nat.mod_le _ _) (mantissa_lt d.magnitude)
      · rw [hsplit, Nat.mul_mod_mul_right]
    · refine ⟨0, 0, by omega, Nat.zero_le _, ?_⟩
      rw [Nat.mod_eq_zero_of_dvd (Nat.dvd_mul_left_of_dvd (Nat.pow_dvd_pow 2 hge) _), Nat.zero_mul]
  obtain ⟨word, hword, hunits⟩ := exists_units_eq (e := e) hm
  have hfinite : word < infiniteMagnitude := by
    have hle : e + 2 ≤ 2047 := Nat.add_le_add_right (he.trans (by decide)) 2
    rw [infiniteMagnitude_eq]
    exact Nat.lt_of_lt_of_le hword (Nat.mul_le_mul_right _ hle)
  have hmagnitude : d.fract.magnitude = word := by
    rw [fract_magnitude h]
    exact nearest_of_units hunit hfinite (by rw [hunits, hrest])
  refine ⟨?_, ?_⟩
  · rw [isFinite, hmagnitude]
    exact decide_eq_true hfinite
  · rw [hmagnitude, hunits, hrest]

/-- The fraction of a double is that of the number that it stands for, of a negative one below zero. -/
theorem value?_fract (h : d.value? = some x) :
    d.fract.value? = some (if 0 ≤ x then Int.fract x else -Int.fract (-x)) := by
  obtain ⟨hfinite, rfl⟩ := value?_eq_some_iff.1 h
  obtain ⟨hfinite', hunits⟩ := units_fract hfinite
  have hfract : magnitudeValue d.fract.magnitude = Int.fract (magnitudeValue d.magnitude) := by
    rw [magnitudeValue_eq, magnitudeValue_eq, hunits, Int.fract_div_natCast_eq_div_natCast_mod]
  have hnonneg := magnitudeValue_nonneg d.magnitude
  rw [value?_eq_some_iff, hfract, fract_negative hfinite, ← hunits]
  refine ⟨hfinite', ?_⟩
  cases hsign : d.negative with
  | false => simp [hnonneg]
  | true =>
    by_cases hzero : units d.fract.magnitude = 0
    · -- Without a fraction there is no sign either, and both sides are zero.
      have hwhole : Int.fract (magnitudeValue d.magnitude) = 0 := by
        rw [← hfract, eq_zero_of_units_eq_zero hzero, magnitudeValue_zero]
      simp [hwhole, Int.fract_neg_eq_zero.2 hwhole]
    · have hpos : 0 < magnitudeValue d.magnitude := by
        refine hnonneg.lt_of_ne fun heq => hzero ?_
        rw [← heq, Int.fract_zero, ← magnitudeValue_zero] at hfract
        rw [magnitudeValue_strictMono.injective hfract, units_of_lt (by decide)]
      simp [hpos, hzero]

/-- A double has no fraction exactly if it stands for a whole number. -/
theorem fract_same_zero_iff (h : d.value? = some x) : d.fract.same zero = true ↔ ∃ z : ℤ, x = z := by
  have hwhole (y : ℚ) : Int.fract y = 0 ↔ ∃ z : ℤ, y = z := by
    rw [Int.fract_eq_zero_iff, Set.mem_range]
    exact exists_congr fun z => eq_comm
  rw [same_iff (value?_fract h) value?_zero]
  split
  · exact hwhole x
  · rw [neg_eq_zero, Int.fract_neg_eq_zero, hwhole]

/-- What is not finite is not without a fraction. -/
theorem fract_same_zero_of_value?_none (h : d.value? = none) : d.fract.same zero = false := by
  have hfinite : d.isFinite ≠ true := by
    intro hfinite
    rw [value?, if_pos hfinite] at h
    cases h
  rw [fract, if_neg hfinite]
  rfl

theorem toNat_ofNatClamp (n : Nat) : (UInt64.ofNatClamp n).toNat = min n (2 ^ 64 - 1) := by
  rcases Nat.lt_or_ge n (2 ^ 64) with hlt | hge
  · rw [UInt64.toNat_ofNatClamp_of_lt hlt, Nat.min_eq_left (Nat.le_sub_one_of_lt hlt)]
  · rw [UInt64.toNat_ofNatClamp_of_le hge, Nat.min_eq_right (Nat.le_trans (Nat.sub_le _ _) hge)]
    rfl

/-- The cast of a double that is a natural number is that number, as far as it fits. -/
theorem toUInt64_of_isNat (h : d.IsNat n) : d.toUInt64 = .ofNatClamp n := by
  have hnan := isNaN_of_value? (value?_eq_natCast_iff.2 h)
  obtain ⟨-, hsign, hunits⟩ := h
  have hunit : 0 < 2 ^ unitHalvings := Nat.pow_pos (by omega)
  unfold toUInt64
  rw [hnan, hunits, Nat.shiftRight_eq_div_pow, Nat.mul_div_cancel _ hunit]
  cases hnegative : d.negative with
  | false => rfl
  | true =>
    rw [hsign hnegative]
    rfl

end ScriptFront.Double
