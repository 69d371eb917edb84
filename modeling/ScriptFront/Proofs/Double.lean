import Mathlib.Algebra.Group.Nat.Defs
import Mathlib.Data.List.TakeWhile
import ScriptFront.Double.Decimal

/-!
# Words and whole numbers

A magnitude word stands for a number of units; words are ordered as those numbers
(`Double.units_lt_units`), and rounding to the nearest word leaves a number alone that some word stands for
(`Double.nearest_of_units`). Which natural number a value is, if it is one (`Double.toNat?_eq_some_iff`),
and that a natural number written in decimal is read as itself where it is a value at all
(`Double.exists_read?_repr`).
-/

namespace ScriptFront.Double

/-- The value is the natural number `n`; both zeros are the number zero. -/
def IsNat (d : Double) (n : Nat) : Prop :=
  d.isFinite = true ∧ (d.negative = true → n = 0) ∧ units d.magnitude = n * 2 ^ unitHalvings

theorem mantissa_eq (magnitude : Nat) : mantissa magnitude =
    if magnitude < 2 ^ 52 then magnitude else 2 ^ 52 + magnitude % 2 ^ 52 := by
  rw [mantissa, Nat.one_shiftLeft]

theorem exponent_eq (magnitude : Nat) : exponent magnitude =
    if magnitude < 2 ^ 52 then 0 else magnitude / 2 ^ 52 - 1 := by
  rw [exponent, Nat.one_shiftLeft, Nat.shiftRight_eq_div_pow]

theorem units_eq (magnitude : Nat) : units magnitude = mantissa magnitude * 2 ^ exponent magnitude :=
  Nat.shiftLeft_eq _ _

theorem eq_zero_of_units_eq_zero {magnitude : Nat} (h : units magnitude = 0) : magnitude = 0 := by
  rw [units_eq] at h
  have hpow : 0 < 2 ^ exponent magnitude := Nat.pow_pos (by omega)
  have hmantissa : mantissa magnitude = 0 := (Nat.mul_eq_zero.1 h).resolve_right (by omega)
  rw [mantissa_eq] at hmantissa
  split at hmantissa <;> omega

/-- The natural number that a value is, if it is one. -/
def toNat? (d : Double) : Option Nat :=
  if d.isFinite && (!d.negative || d.magnitude == 0) && units d.magnitude % 1 <<< unitHalvings == 0 then
    some (units d.magnitude >>> unitHalvings)
  else none

theorem toNat?_eq_some_iff {d : Double} {n : Nat} : d.toNat? = some n ↔ d.IsNat n := by
  unfold toNat? IsNat
  rw [Nat.one_shiftLeft, Nat.shiftRight_eq_div_pow]
  have hunit : 0 < 2 ^ unitHalvings := Nat.pow_pos (by omega)
  generalize 2 ^ unitHalvings = unit at hunit
  constructor
  · intro h
    split at h
    · next hcond =>
      simp only [Bool.and_eq_true, Bool.or_eq_true, Bool.not_eq_true', beq_iff_eq] at hcond
      obtain ⟨⟨hfinite, hsign⟩, hwhole⟩ := hcond
      obtain rfl := Option.some.inj h
      refine ⟨hfinite, fun hneg => ?_, (Nat.div_mul_cancel (Nat.dvd_of_mod_eq_zero hwhole)).symm⟩
      have hzero := hsign.resolve_left (by simp [hneg])
      rw [hzero]
      exact Nat.zero_div unit
    · cases h
  · rintro ⟨hfinite, hneg, hunits⟩
    have hsign : d.negative = false ∨ d.magnitude = 0 := by
      cases hd : d.negative with
      | false => exact .inl rfl
      | true =>
        refine .inr (eq_zero_of_units_eq_zero ?_)
        rw [hunits, hneg hd, Nat.zero_mul]
    rw [if_pos]
    · rw [hunits, Nat.mul_div_cancel n hunit]
    · simp [hfinite, hsign, hunits]

/-! ## Words -/

theorem infiniteMagnitude_eq : infiniteMagnitude = 2047 * 2 ^ 52 := Nat.shiftLeft_eq _ _

theorem mantissa_lt (magnitude : Nat) : mantissa magnitude < 2 ^ 53 := by
  rw [mantissa_eq]
  split <;> omega

theorem le_mantissa {magnitude : Nat} (h : 0 < exponent magnitude) : 2 ^ 52 ≤ mantissa magnitude := by
  have hlarge : ¬ magnitude < 2 ^ 52 := by
    intro hsmall
    rw [exponent_eq, if_pos hsmall] at h
    exact absurd h (Nat.lt_irrefl 0)
  rw [mantissa_eq, if_neg hlarge]
  omega

/-- A word is its mantissa, raised by its exponent. -/
theorem word_eq (magnitude : Nat) : exponent magnitude * 2 ^ 52 + mantissa magnitude = magnitude := by
  rw [exponent_eq, mantissa_eq]
  split <;> omega

/-- A mantissa of 53 bits and an exponent make a word, and so does the power of two after the last one. -/
theorem units_word {m e : Nat} (hlow : 2 ^ 52 ≤ m) (hhigh : m ≤ 2 ^ 53) :
    units (e * 2 ^ 52 + m) = m * 2 ^ e := by
  rw [units_eq, mantissa_eq, exponent_eq, if_neg (by omega), if_neg (by omega)]
  rcases Nat.lt_or_eq_of_le hhigh with hlt | rfl
  · have hdiv : (e * 2 ^ 52 + m) / 2 ^ 52 - 1 = e := by omega
    have hmod : 2 ^ 52 + (e * 2 ^ 52 + m) % 2 ^ 52 = m := by omega
    rw [hdiv, hmod]
  · -- the bits overflow into the next exponent
    have hdiv : (e * 2 ^ 52 + 2 ^ 53) / 2 ^ 52 - 1 = e + 1 := by omega
    have hmod : 2 ^ 52 + (e * 2 ^ 52 + 2 ^ 53) % 2 ^ 52 = 2 ^ 52 := by omega
    rw [hdiv, hmod, Nat.pow_succ 2 e, Nat.mul_comm (2 ^ e), ← Nat.mul_assoc, ← Nat.pow_succ]

theorem units_of_lt {magnitude : Nat} (h : magnitude < 2 ^ 52) : units magnitude = magnitude := by
  rw [units_eq, mantissa_eq, exponent_eq, if_pos h, if_pos h, Nat.pow_zero, Nat.mul_one]

/-- A number of 53 bits, doubled so often, has a word: what its leading zeros leave free is taken from the
exponent, as far as there is one. -/
theorem exists_units_eq {m e : Nat} (hm : m < 2 ^ 53) : ∃ word < (e + 2) * 2 ^ 52, units word = m * 2 ^ e := by
  induction e generalizing m with
  | zero =>
    refine ⟨m, by omega, ?_⟩
    rw [Nat.pow_zero, Nat.mul_one]
    rcases Nat.lt_or_ge m (2 ^ 52) with hlt | hge
    · exact units_of_lt hlt
    · simpa using units_word (e := 0) hge (Nat.le_of_lt hm)
  | succ e ih =>
    rcases Nat.lt_or_ge m (2 ^ 52) with hlt | hge
    · obtain ⟨word, hword, hunits⟩ := ih (m := m * 2) (by omega)
      refine ⟨word, Nat.lt_of_lt_of_le hword (Nat.mul_le_mul_right _ (by omega)), ?_⟩
      rw [hunits, Nat.mul_assoc, Nat.pow_succ']
    · exact ⟨(e + 1) * 2 ^ 52 + m, by omega, units_word hge (Nat.le_of_lt hm)⟩

/-- The order of words is that of what they stand for. -/
theorem units_lt_units {a b : Nat} (h : a < b) : units a < units b := by
  have ha := word_eq a
  have hb := word_eq b
  have hmantissa := mantissa_lt a
  have hpow : 0 < 2 ^ exponent b := Nat.pow_pos (by omega)
  rw [units_eq, units_eq]
  rcases Nat.lt_trichotomy (exponent a) (exponent b) with hlt | heq | hgt
  · have hlead : 2 ^ 52 ≤ mantissa b := le_mantissa (by omega)
    have hscale : 2 ^ (exponent a + 1) ≤ 2 ^ exponent b := Nat.pow_le_pow_right (by omega) hlt
    calc mantissa a * 2 ^ exponent a
        < 2 ^ 53 * 2 ^ exponent a := Nat.mul_lt_mul_of_pos_right hmantissa (Nat.pow_pos (by omega))
      _ = 2 ^ 52 * 2 ^ (exponent a + 1) := by rw [← Nat.pow_add, ← Nat.pow_add]; congr 1; omega
      _ ≤ mantissa b * 2 ^ exponent b := Nat.mul_le_mul hlead hscale
  · rw [heq]
    exact Nat.mul_lt_mul_of_pos_right (by omega) hpow
  · have hlead : 2 ^ 52 ≤ mantissa a := le_mantissa (by omega)
    have hmantissa' := mantissa_lt b
    omega

/-! ## Rounding -/

/-- In units, a word above the smallest ones is its mantissa, of 53 bits, shifted by its exponent. -/
theorem log2_units {magnitude : Nat} (h : 2 ^ 52 ≤ magnitude) :
    (units magnitude).log2 = exponent magnitude + 52 := by
  have hlow : 2 ^ 52 ≤ mantissa magnitude := by
    rw [mantissa_eq, if_neg (by omega)]
    omega
  have hpow : 0 < 2 ^ exponent magnitude := Nat.pow_pos (by omega)
  have hne : mantissa magnitude * 2 ^ exponent magnitude ≠ 0 := Nat.mul_ne_zero (by omega) (by omega)
  rw [units_eq]
  refine (Nat.log2_eq_iff hne).2 ⟨?_, ?_⟩
  · rw [Nat.pow_add, Nat.mul_comm]
    exact Nat.mul_le_mul_right _ hlow
  · rw [Nat.add_assoc, Nat.pow_add, Nat.mul_comm _ (2 ^ (52 + 1))]
    exact Nat.mul_lt_mul_of_pos_right (mantissa_lt magnitude) hpow

/-- A fraction that a word stands for is rounded to that word. -/
theorem nearest_of_units {num den magnitude : Nat} (hden : 0 < den) (hfinite : magnitude < infiniteMagnitude)
    (h : units magnitude * den = num * 2 ^ unitHalvings) : nearest num den = magnitude := by
  have hexponent : (units magnitude).log2 + 1 - 53 = exponent magnitude := by
    by_cases hsmall : magnitude < 2 ^ 52
    · have hlog : magnitude.log2 ≤ 52 := by
        by_cases hzero : magnitude = 0
        · rw [hzero]
          decide
        · exact Nat.le_of_lt ((Nat.log2_lt hzero).2 hsmall)
      rw [units_of_lt hsmall, exponent_eq, if_pos hsmall]
      omega
    · rw [log2_units (by omega)]
      omega
  have hstep : units magnitude * den = mantissa magnitude * (den * 2 ^ exponent magnitude) := by
    rw [units_eq, Nat.mul_assoc, Nat.mul_comm den]
  have hpos : 0 < den * 2 ^ exponent magnitude := Nat.mul_pos hden (Nat.pow_pos (by omega))
  unfold nearest
  simp only [Nat.shiftLeft_eq, ← h, Nat.mul_div_cancel _ hden, hexponent]
  rw [hstep, Nat.mul_div_cancel _ hpos, Nat.mul_mod_left, if_neg (by omega), word_eq]
  exact Nat.min_eq_right (Nat.le_of_lt hfinite)

/-! ## Numerals -/

theorem isDigit_of_mem_repr {n : Nat} : ∀ c ∈ n.repr.toList, c.isDigit = true := by
  rw [Nat.toList_repr]
  exact fun c hc => Nat.isDigit_of_mem_toDigits (by omega) (by omega) hc

theorem repr_ne_nil {n : Nat} : n.repr.toList ≠ [] := by
  rw [Nat.toList_repr]
  exact Nat.toDigits_ne_nil

/-- Digits are a decimal number without a fraction or an exponent. -/
theorem decimal_read?_whole {ds : List Char} (hne : ds ≠ []) (hds : ∀ d ∈ ds, d.isDigit = true) :
    Decimal.read? ds = some ⟨Nat.ofDigitChars 10 ds 0, 0⟩ := by
  have htake := List.takeWhile_eq_self_iff.2 hds
  have hdrop := List.dropWhile_eq_nil_iff.2 hds
  unfold Decimal.read?
  simp only [htake, hdrop, Decimal.splitFraction]
  rw [if_neg (fun h => hne h.1), List.append_nil]
  rfl

/-- Digits, a point and more digits are a decimal number without an exponent. -/
theorem decimal_read?_fraction {ds es : List Char} (hne : ds ≠ [])
    (hds : ∀ d ∈ ds, d.isDigit = true) (hes : ∀ e ∈ es, e.isDigit = true) :
    Decimal.read? (ds ++ '.' :: es) =
      some ⟨Nat.ofDigitChars 10 (ds ++ es) 0, 0 - (es.length : Int)⟩ := by
  have hpoint : Char.isDigit '.' = false := rfl
  have htake : (ds ++ '.' :: es).takeWhile Char.isDigit = ds := by
    rw [List.takeWhile_append_of_pos hds, List.takeWhile_cons_of_neg (by simp [hpoint]),
      List.append_nil]
  have hdrop : (ds ++ '.' :: es).dropWhile Char.isDigit = '.' :: es := by
    rw [List.dropWhile_append_of_pos hds, List.dropWhile_cons_of_neg (by simp [hpoint])]
  have htake' := List.takeWhile_eq_self_iff.2 hes
  have hdrop' := List.dropWhile_eq_nil_iff.2 hes
  unfold Decimal.read?
  simp only [htake, hdrop, Decimal.splitFraction, htake', hdrop']
  rw [if_neg (fun h => hne h.1)]
  rfl

/-- A natural number in decimal is the decimal number of its digits. -/
theorem decimal_read?_repr (n : Nat) : Decimal.read? n.repr.toList = some ⟨n, 0⟩ := by
  have hdigits : Nat.ofDigitChars 10 n.repr.toList 0 = n := by
    rw [Nat.toList_repr]
    exact Nat.ofDigitChars_toDigits (by omega) (by omega)
  rw [decimal_read?_whole repr_ne_nil isDigit_of_mem_repr, hdigits]

/-- A decimal number that begins with a digit, so without a sign, is read as the word nearest to it. -/
theorem read?_of_digit {text : String} {c : Char} {cs : List Char} {d : Decimal}
    (htext : text.toList = c :: cs) (hc : c.isDigit = true) (hd : Decimal.read? text.toList = some d) :
    read? text = some (ofDecimal false d) := by
  have hunsigned : readUnsigned? false text.toList = some (ofDecimal false d) := by
    rw [readUnsigned?, hd]
  rw [htext] at hunsigned
  unfold read?
  rw [htext]
  split
  · next h =>
    injection h with h
    exact absurd hc (by rw [h]; decide)
  · next h =>
    injection h with h
    exact absurd hc (by rw [h]; decide)
  · exact hunsigned

/-- A natural number in decimal is read as the word nearest to it. -/
theorem read?_repr (n : Nat) : read? n.repr = some (ofNat n) := by
  obtain ⟨d, ds, heq⟩ := List.exists_cons_of_ne_nil (@repr_ne_nil n)
  have hd : d.isDigit = true := isDigit_of_mem_repr d (by rw [heq]; exact List.mem_cons_self)
  exact read?_of_digit heq hd (decimal_read?_repr n)

/-- A natural number is rounded to the nearest word; one with too many digits is not looked at. -/
theorem magnitude_whole {n : Nat} (hn : n ≠ 0) :
    Decimal.magnitude ⟨n, 0⟩ = if 310 < Decimal.width n then infiniteMagnitude else nearest n 1 := by
  unfold Decimal.magnitude
  simp only
  rw [if_neg hn]
  split
  · rw [if_pos (by omega)]
  · rw [if_neg (by omega), if_neg (by omega)]
    simp

theorem magnitude_natural {n : Nat} (hn : n < 2 ^ 64) (hne : n ≠ 0) :
    Decimal.magnitude ⟨n, 0⟩ = nearest n 1 := by
  have hwidth : Decimal.width n ≤ 20 :=
    (Nat.length_toDigits_le_iff (by omega) (by omega)).2 (by omega)
  rw [magnitude_whole hne, if_neg (by omega)]

/-- A natural number that is a value is read as itself. -/
theorem exists_read?_repr {d : Double} {n : Nat} (hn : n < 2 ^ 64) (hd : d.IsNat n) :
    ∃ v, read? n.repr = some v ∧ v.IsNat n := by
  refine ⟨_, read?_repr n, ?_⟩
  by_cases hne : n = 0
  · subst hne
    exact ⟨by decide, fun _ => rfl, by decide +kernel⟩
  · obtain ⟨hfinite, -, hunits⟩ := hd
    have hnearest : (ofNat n).magnitude = d.magnitude := by
      refine (magnitude_natural hn hne).trans (nearest_of_units Nat.one_pos ?_ ?_)
      · simpa [isFinite] using hfinite
      · rw [Nat.mul_one, hunits]
    refine ⟨?_, nofun, hnearest ▸ hunits⟩
    rw [isFinite, hnearest]
    exact hfinite

/-- The number before two to the 64th is rounded to that power: it has one bit too many. -/
theorem isNat_ofNat_max : (ofNat (2 ^ 64 - 1)).IsNat (2 ^ 64) := ⟨by decide +kernel, nofun, by decide +kernel⟩

end ScriptFront.Double
