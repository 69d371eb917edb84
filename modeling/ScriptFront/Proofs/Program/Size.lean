import ScriptFront.Proofs.Print.Format
import ScriptFront.Proofs.Program.TypeRef
import ScriptFront.Proofs.Rounding

/-!
# The sizes of groups

The size of a group is read as a number like any other, and so it is rounded to 53 significant bits before
it is taken for a size. A size that is written in decimal is therefore kept as the nearest whole value, the
largest size standing in for `2 ^ 64` (`parseType_groupTokens`): sizes of up to 53 bits are kept as
written, larger ones only if they happen to be values, and of the sizes that are too large those are accepted
that round down to `2 ^ 64`.
-/

namespace ScriptFront

open Double (roundNat)

/-! ## Groups are judged by their sizes -/

namespace Parse

variable {n : Nat} {s : Stream} {b : Power}

/-- Once its parts are read, a group is accepted or refused by what its size says. -/
theorem typeWithin_group {grp less comma greater k : Token} {ts us rest : List Token} {element : TypeRef}
    {e : Expr} (hgrp : grp.kind = .word .grp) (hless : less.kind = .mark .less)
    (helement : DerivesType n ts element) (hcomma : comma.kind = .mark .comma)
    (he : Derives n .additive us e) (hgreater : greater.kind = .mark .greater)
    (hs : s.rest = grp :: less :: (ts ++ comma :: (us ++ greater :: k :: rest))) :
    ∃ s', s'.rest = k :: rest ∧ typeWithin .standard (n + 1) b s =
      match e.statedSize with
      | .ok size => .done (.group element size) s'
      | .error cause => .fault cause s' := by
  have hpower : ExprGrammar.standard.power (.mark .greater) ≤ .relational := by decide
  obtain ⟨s', hparts, hpass⟩ := groupParts_reads hgrp hless hcomma hgreater hs (fun _ hs => helement.reads hs)
    fun _ hs => he.reads (b := .relational) rfl hs (hgreater ▸ hpower)
  refine ⟨s', hpass.rest_eq (by simp [hs]), ?_⟩
  rw [typeWithin_succ, operand, current_bind, Stream.current_of_rest hs, hgrp]
  exact typeForm_group_of_groupParts hparts

end Parse

/-- The tokens of `grp<element, size>`. -/
def groupTokens (element size : String) : List Token :=
  [Word.grp.token, Mark.less.token, nameToken element, Mark.comma.token, ⟨.number, size⟩,
    Mark.greater.token]

/-- A group whose size is a number is read as the group of that size, if the number is one. -/
theorem parseType_of_read? {element size : String} {v : Double} (hv : Double.read? size = some v) :
    parseType (groupTokens element size ++ [.endOfInput]) =
      match TypeRef.size? v with
      | some size => .ok (.group (.named element) size)
      | none => .fault (.sizeOutOfRange (v.write .plain)) := by
  obtain ⟨s, hs, hrest, -⟩ :=
    Stream.ofTokens_append_end (groupTokens element size) (t := .endOfInput) rfl
  have helement : DerivesType 255 [nameToken element] (.named element) :=
    .named (t := nameToken element) rfl
  have hsize : Derives 255 .additive [⟨.number, size⟩] (.number v) :=
    (Derives.number (n := 254) (t := ⟨.number, size⟩) rfl hv).loosen (by decide)
  obtain ⟨s', hrest', hrun⟩ := Parse.typeWithin_group (b := .lowest) rfl rfl helement rfl hsize rfl hrest
  have hend : s'.current.kind = .endOfInput := by rw [Stream.current_of_rest hrest']; rfl
  simp only [Expr.statedSize, Expr.literalValue?] at hrun
  rw [parseType_of_ofTokens hs]
  cases hv : TypeRef.size? v with
  | some size =>
    rw [hv] at hrun
    simp only [maxNesting, hrun, if_pos hend]
  | none =>
    rw [hv] at hrun
    simp only [maxNesting, hrun]

/-! ## Sizes in decimal -/

/-- The text writes the natural number in decimal, perhaps with zeros in front. -/
structure Spells (text : String) (n : Nat) : Prop where
  nonempty : text.toList ≠ []
  digits : ∀ c ∈ text.toList, c.isDigit = true
  value : Nat.ofDigitChars 10 text.toList 0 = n

theorem Spells.read? {text : String} {n : Nat} (h : Spells text n) :
    Double.read? text = some (.ofNat n) := by
  obtain ⟨c, cs, htext⟩ := List.exists_cons_of_ne_nil h.nonempty
  have hc : c.isDigit = true := h.digits c (by rw [htext]; exact List.mem_cons_self)
  have hdecimal := Double.decimal_read?_whole h.nonempty h.digits
  rw [h.value] at hdecimal
  exact Double.read?_of_digit htext hc hdecimal

namespace TypeRef

variable {n : Nat}

/-- The size that a natural number is taken for, once it is rounded. -/
theorem size?_ofNat (n : Nat) :
    size? (.ofNat n) = if roundNat n ≤ 2 ^ 64 then some (.ofNatClamp (roundNat n)) else none := by
  rw [size?_eq_bind]
  by_cases hfinite : Decimal.magnitude ⟨n, 0⟩ < Double.infiniteMagnitude
  · rw [Double.toNat?_eq_some_iff.2 (Double.isNat_ofNat hfinite), Option.bind_some]
  · have hlarge : ¬ roundNat n ≤ 2 ^ 64 := by
      intro h
      exact hfinite (Double.magnitude_lt_infinite (Nat.lt_of_le_of_lt h (by decide)))
    have hnone : (Double.ofNat n).toNat? = none := by
      simp [Double.toNat?, Double.isFinite, Double.ofNat, Double.ofDecimal, hfinite]
    rw [hnone, if_neg hlarge, Option.bind_none]

/-- No size is rounded past the bound. -/
theorem roundNat_le_bound (h : n < 2 ^ 64) : roundNat n ≤ 2 ^ 64 := by
  by_cases hn : n = 0
  · subst hn
    decide
  · have hlog : n.log2 < 64 := (Nat.log2_lt hn).2 h
    exact Nat.le_trans (Double.roundNat_bounds hn).2 (Nat.pow_le_pow_right (by omega) (by omega))

theorem bound_le_roundNat (h : 2 ^ 64 ≤ n) : 2 ^ 64 ≤ roundNat n := by
  have hn : n ≠ 0 := by omega
  have hlog : 64 ≤ n.log2 := (Nat.le_log2 hn).2 h
  exact Nat.le_trans (Nat.pow_le_pow_right (by omega) hlog) (Double.roundNat_bounds hn).1

/-- Above the bound values are `2 ^ 12` apart, and half of that is rounded down to the bound. -/
theorem roundNat_le_bound_iff (h : 2 ^ 64 ≤ n) : roundNat n ≤ 2 ^ 64 ↔ n ≤ 2 ^ 64 + 2 ^ 11 := by
  have hn : n ≠ 0 := by omega
  have hlog : 64 ≤ n.log2 := (Nat.le_log2 hn).2 h
  rcases Nat.eq_or_lt_of_le hlog with hlog | hlog
  · have hgrain : Double.grain n = 2 ^ 12 := by rw [Double.grain, ← hlog]
    rw [roundNat, Double.grains, hgrain]
    split <;> omega
  · have hpow : 2 ^ 65 ≤ 2 ^ n.log2 := Nat.pow_le_pow_right (by omega) hlog
    have hround := (Double.roundNat_bounds hn).1
    have hself := Nat.log2_self_le hn
    omega

/-- A size is kept as written if it is a value, and so is the largest one. -/
theorem min_roundNat_eq_self_iff (h : n < 2 ^ 64) :
    min (roundNat n) (2 ^ 64 - 1) = n ↔ roundNat n = n ∨ n = 2 ^ 64 - 1 := by
  have hle := roundNat_le_bound h
  constructor
  · intro hmin
    omega
  · rintro (hself | rfl)
    · omega
    · decide +kernel

end TypeRef

/-- What becomes of a size in decimal. A size that a group can have is rounded to the nearest value, so that
it is kept as written exactly if it is a power of two times a number of 53 bits, or the largest
size. A number that is too large is refused, unless it is at most `2 ^ 11` above the bound: it then becomes
the largest size. -/
theorem parseType_groupTokens (element : String) {text : String} {n : Nat} (h : Spells text n) :
    (n < 2 ^ 64 → ∃ size,
      parseType (groupTokens element text ++ [.endOfInput]) = .ok (.group (.named element) size) ∧
        size.toNat = min (roundNat n) (2 ^ 64 - 1) ∧
        (size.toNat = n ↔ (∃ m k, m < 2 ^ 53 ∧ n = m * 2 ^ k) ∨ n = 2 ^ 64 - 1)) ∧
    (2 ^ 64 ≤ n → n ≤ 2 ^ 64 + 2 ^ 11 → ∃ size,
      parseType (groupTokens element text ++ [.endOfInput]) = .ok (.group (.named element) size) ∧
        size.toNat = 2 ^ 64 - 1) ∧
    (2 ^ 64 + 2 ^ 11 < n → ∃ literal,
      parseType (groupTokens element text ++ [.endOfInput]) = .fault (.sizeOutOfRange literal)) := by
  rw [parseType_of_read? h.read?, TypeRef.size?_ofNat]
  refine ⟨fun hlt => ?_, fun hge hle => ?_, fun hlt => ?_⟩
  · rw [if_pos (TypeRef.roundNat_le_bound hlt)]
    refine ⟨_, rfl, Double.toNat_ofNatClamp _, ?_⟩
    rw [Double.toNat_ofNatClamp, TypeRef.min_roundNat_eq_self_iff hlt, Double.roundNat_eq_self_iff]
  · have hround := TypeRef.bound_le_roundNat hge
    rw [if_pos ((TypeRef.roundNat_le_bound_iff hge).2 hle)]
    refine ⟨_, rfl, ?_⟩
    rw [Double.toNat_ofNatClamp]
    omega
  · have hlarge : ¬ roundNat n ≤ 2 ^ 64 := by
      rw [TypeRef.roundNat_le_bound_iff (by omega)]
      omega
    rw [if_neg hlarge]
    exact ⟨_, rfl⟩

/-- `grp<int, 0018446744073709553664>` is the last one that becomes the largest group. -/
theorem parseType_groupTokens_padded :
    Spells "0018446744073709553664" (2 ^ 64 + 2 ^ 11) ∧
      parseType (groupTokens "int" "0018446744073709553664" ++ [.endOfInput]) =
        .ok (.group (.named "int") 18446744073709551615) := by
  have h : Spells "0018446744073709553664" (2 ^ 64 + 2 ^ 11) := ⟨by decide, List.all_eq_true.1 rfl, by decide⟩
  obtain ⟨size, hsize, hmax⟩ := (parseType_groupTokens "int" h).2.1 (by decide) (by decide)
  obtain rfl : size = 18446744073709551615 := UInt64.toNat_inj.1 hmax
  exact ⟨h, hsize⟩

/-- `grp<int, 9007199254740993>` is read with one element less, and `grp<int, 18446744073709551616>` is read,
although no group has that size. -/
theorem parseType_groupTokens_inexact :
    parseType (groupTokens "int" "9007199254740993" ++ [.endOfInput]) =
        .ok (.group (.named "int") 9007199254740992) ∧
      parseType (groupTokens "int" "18446744073709551616" ++ [.endOfInput]) =
        .ok (.group (.named "int") 18446744073709551615) := by
  constructor
  · have h : Spells "9007199254740993" 9007199254740993 := ⟨by decide, List.all_eq_true.1 rfl, by decide⟩
    rw [parseType_of_read? h.read?, TypeRef.size?_ofNat]
    rfl
  · have h : Spells "18446744073709551616" 18446744073709551616 := ⟨by decide, List.all_eq_true.1 rfl, by decide⟩
    rw [parseType_of_read? h.read?, TypeRef.size?_ofNat]
    rfl

end ScriptFront
