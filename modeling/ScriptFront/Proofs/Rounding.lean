import ScriptFront.Proofs.Double

/-!
# Rounding natural numbers

Values have 53 significant bits, so above `2 ^ 53` the whole numbers among them lie apart:
`Double.grain n` is the distance between neighbours at the height of `n`. `Double.roundNat` takes a natural
number to the multiple of this distance that is nearest to it, and to the even one if two are. The word
nearest to a natural number stands for the number so rounded (`Double.isNat_ofNat`), which is the number
itself exactly if it is a power of two times a number of 53 bits (`Double.roundNat_eq_self_iff`).
-/

namespace ScriptFront.Double

/-- The distance between neighbouring whole values at the height of `n`. -/
def grain (n : Nat) : Nat := 2 ^ (n.log2 - 52)

/-- How many grains make up the whole value nearest to `n`, a tie going to the even number. -/
def grains (n : Nat) : Nat :=
  if grain n < 2 * (n % grain n) ∨ 2 * (n % grain n) = grain n ∧ n / grain n % 2 = 1 then n / grain n + 1
  else n / grain n

/-- The whole value nearest to `n`. -/
def roundNat (n : Nat) : Nat := grains n * grain n

variable {n : Nat}

theorem grain_pos (n : Nat) : 0 < grain n := Nat.pow_pos (by omega)

theorem grain_of_log2_le (h : n.log2 ≤ 52) : grain n = 1 := by
  rw [grain, Nat.sub_eq_zero_of_le h, Nat.pow_zero]

theorem roundNat_of_dvd (h : grain n ∣ n) : roundNat n = n := by
  have hpos := grain_pos n
  rw [roundNat, grains, Nat.mod_eq_zero_of_dvd h, if_neg (by omega), Nat.div_mul_cancel h]

/-- A number has at most 53 bits above the grain. -/
theorem div_grain_lt (n : Nat) : n / grain n < 2 ^ 53 := by
  rw [Nat.div_lt_iff_lt_mul (grain_pos n), grain, ← Nat.pow_add]
  exact Nat.lt_of_lt_of_le Nat.lt_log2_self (Nat.pow_le_pow_right (by omega) (by omega))

/-- A number of at least 53 bits has that many above the grain. -/
theorem le_div_grain (h : 52 ≤ n.log2) : 2 ^ 52 ≤ n / grain n := by
  have hne : n ≠ 0 := by
    rintro rfl
    exact absurd h (by decide)
  rw [Nat.le_div_iff_mul_le (grain_pos n), grain, ← Nat.pow_add, Nat.add_sub_cancel' h]
  exact Nat.log2_self_le hne

theorem grains_bounds (h : 52 ≤ n.log2) : 2 ^ 52 ≤ grains n ∧ grains n ≤ 2 ^ 53 := by
  have hlow := le_div_grain h
  have hhigh := div_grain_lt n
  rw [grains]
  split <;> omega

/-- Rounding does not lead past a power of two. -/
theorem roundNat_bounds (hn : n ≠ 0) : 2 ^ n.log2 ≤ roundNat n ∧ roundNat n ≤ 2 ^ (n.log2 + 1) := by
  rcases Nat.le_total n.log2 52 with hsmall | hlarge
  · rw [roundNat_of_dvd (by rw [grain_of_log2_le hsmall]; exact Nat.one_dvd n)]
    exact ⟨Nat.log2_self_le hn, Nat.le_of_lt Nat.lt_log2_self⟩
  · obtain ⟨hlow, hhigh⟩ := grains_bounds hlarge
    have hpow : 2 ^ n.log2 = 2 ^ 52 * grain n := by
      rw [grain, ← Nat.pow_add, Nat.add_sub_cancel' hlarge]
    rw [Nat.pow_succ, hpow, roundNat, Nat.mul_right_comm]
    exact ⟨Nat.mul_le_mul_right _ hlow, Nat.mul_le_mul_right _ hhigh⟩

/-- The numbers that rounding leaves alone are the powers of two times numbers of 53 bits. -/
theorem roundNat_eq_self_iff : roundNat n = n ↔ ∃ m k, m < 2 ^ 53 ∧ n = m * 2 ^ k := by
  constructor
  · intro h
    have hdvd : grain n ∣ n := ⟨grains n, h.symm.trans (Nat.mul_comm _ _)⟩
    exact ⟨n / grain n, n.log2 - 52, div_grain_lt n, (Nat.div_mul_cancel hdvd).symm⟩
  · rintro ⟨m, k, hm, h⟩
    by_cases hn : n = 0
    · subst hn
      rfl
    -- a number below `2 ^ (53 + k)` has a grain that divides `2 ^ k`
    have hlog : n.log2 < 53 + k := by
      rw [Nat.log2_lt hn, h, Nat.pow_add]
      exact Nat.mul_lt_mul_of_pos_right hm (Nat.pow_pos (by omega))
    have hdvd : grain n ∣ 2 ^ k := Nat.pow_dvd_pow 2 (by omega)
    exact roundNat_of_dvd (Nat.dvd_trans hdvd (h ▸ Nat.dvd_mul_left _ _))

/-! ## The words of natural numbers -/

theorem log2_mul_two_pow (hn : n ≠ 0) (k : Nat) : (n * 2 ^ k).log2 = n.log2 + k := by
  have hpow : 0 < 2 ^ k := Nat.pow_pos (by omega)
  refine (Nat.log2_eq_iff (Nat.mul_ne_zero hn (by omega))).2 ⟨?_, ?_⟩
  · rw [Nat.pow_add]
    exact Nat.mul_le_mul_right _ (Nat.log2_self_le hn)
  · rw [Nat.add_right_comm, Nat.pow_add]
    exact Nat.mul_lt_mul_of_pos_right Nat.lt_log2_self hpow

/-- The word nearest to a number of at least 53 bits. -/
theorem nearest_of_le_log2 (h : 52 ≤ n.log2) :
    nearest n 1 = min infiniteMagnitude ((n.log2 - 52 + unitHalvings) * 2 ^ 52 + grains n) := by
  have hne : n ≠ 0 := by
    rintro rfl
    exact absurd h (by decide)
  have hexponent : n.log2 + unitHalvings + 1 - 53 = n.log2 - 52 + unitHalvings := by omega
  have hunit : 0 < 2 ^ unitHalvings := Nat.pow_pos (by omega)
  unfold nearest grains grain
  simp only [Nat.shiftLeft_eq, Nat.div_one, Nat.one_mul, log2_mul_two_pow hne, hexponent, Nat.pow_add]
  generalize 2 ^ unitHalvings = unit at hunit
  generalize 2 ^ (n.log2 - 52) = step
  rw [Nat.mul_div_mul_right _ _ hunit, Nat.mul_mod_mul_right, ← Nat.mul_assoc]
  simp only [Nat.mul_lt_mul_right hunit, Nat.mul_right_cancel_iff hunit]

/-- The word nearest to a natural number stands for the number rounded, unless there is no such word. -/
theorem exists_nearest (hn : n ≠ 0) :
    ∃ word ≤ (n.log2 + 1024) * 2 ^ 52, nearest n 1 = min infiniteMagnitude word ∧
      units word = roundNat n * 2 ^ unitHalvings := by
  rcases Nat.lt_or_ge n.log2 52 with hsmall | hlarge
  · -- a smaller number is a value itself: shifted up it has 53 bits
    have hexponent : 52 - n.log2 + (n.log2 + 1022) = unitHalvings := by
      rw [unitHalvings]
      omega
    have hshifted : n * 2 ^ (52 - n.log2) * 2 ^ (n.log2 + 1022) = n * 2 ^ unitHalvings := by
      rw [Nat.mul_assoc, ← Nat.pow_add, hexponent]
    have hlog : (n * 2 ^ (52 - n.log2)).log2 = 52 := by
      rw [log2_mul_two_pow hn]
      omega
    have hne : n * 2 ^ (52 - n.log2) ≠ 0 := by
      intro h
      rw [h] at hlog
      cases hlog
    obtain ⟨hlow, hhigh⟩ := (Nat.log2_eq_iff hne).1 hlog
    have hround : roundNat n = n :=
      roundNat_of_dvd (by rw [grain_of_log2_le (Nat.le_of_lt hsmall)]; exact Nat.one_dvd n)
    have hunits := (units_word (e := n.log2 + 1022) hlow (Nat.le_of_lt hhigh)).trans hshifted
    have hfinite : (n.log2 + 1022) * 2 ^ 52 + n * 2 ^ (52 - n.log2) < infiniteMagnitude := by
      rw [infiniteMagnitude_eq]
      omega
    refine ⟨_, ?_, ?_, hunits.trans (by rw [hround])⟩
    · omega
    · rw [nearest_of_units Nat.one_pos hfinite (by rw [Nat.mul_one, hunits]),
        Nat.min_eq_right (Nat.le_of_lt hfinite)]
  · obtain ⟨hlow, hhigh⟩ := grains_bounds hlarge
    refine ⟨_, ?_, nearest_of_le_log2 hlarge, ?_⟩
    · rw [unitHalvings]
      omega
    · rw [units_word hlow hhigh, roundNat, grain, Nat.pow_add, Nat.mul_assoc]

/-! ## Reading natural numbers -/

/-- A finite word that a natural number is read as stands for the number rounded. -/
theorem isNat_ofNat (h : Decimal.magnitude ⟨n, 0⟩ < infiniteMagnitude) :
    (ofNat n).IsNat (roundNat n) := by
  by_cases hn : n = 0
  · subst hn
    exact ⟨by decide, nofun, by decide +kernel⟩
  · refine ⟨decide_eq_true h, nofun, ?_⟩
    obtain ⟨word, -, hnearest, hunits⟩ := exists_nearest hn
    show units (Decimal.magnitude ⟨n, 0⟩) = _
    rw [magnitude_whole hn] at h ⊢
    split at h
    · exact absurd h (Nat.lt_irrefl _)
    · next hwidth =>
      rw [if_neg hwidth, hnearest, Nat.min_eq_right (by omega), hunits]

/-- A natural number is read as a finite word if it is not too large. -/
theorem magnitude_lt_infinite (h : roundNat n < 2 ^ 128) :
    Decimal.magnitude ⟨n, 0⟩ < infiniteMagnitude := by
  by_cases hn : n = 0
  · subst hn
    decide
  · have hlog : n.log2 < 128 :=
      (Nat.pow_lt_pow_iff_right (by omega)).1 (Nat.lt_of_le_of_lt (roundNat_bounds hn).1 h)
    have hlt : n < 2 ^ 128 := (Nat.log2_lt hn).1 hlog
    have hwidth : Decimal.width n ≤ 39 :=
      (Nat.length_toDigits_le_iff (by omega) (by omega)).2 (by omega)
    obtain ⟨word, hword, hnearest, -⟩ := exists_nearest hn
    rw [magnitude_whole hn, if_neg (by omega), hnearest, infiniteMagnitude_eq]
    omega

end ScriptFront.Double
