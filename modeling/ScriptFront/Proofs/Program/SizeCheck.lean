import ScriptFront.Proofs.Program.TypeRef

/-!
# The check of group sizes

The number that writes a size is a double, and a dash before it makes it the opposite double. The check is
compared here with the exact numbers that they stand for (`Expr.Denotes`). A size is accepted exactly if it is
written as a number, perhaps with a dash before it, whose value is whole and lies between zero and `2 ^ 64`
(`Parse.typeForm_group_judged`). The infinite values and the words that are not numbers stand for
nothing and are refused with the fractions; the negative zero stands for zero and is accepted.
-/

namespace ScriptFront

/-- The expression writes the exact number: a number stands for it, or a dash before one that stands for its
opposite. -/
inductive Expr.Denotes : Expr → ℚ → Prop where
  | number {v : Double} {x : ℚ} (hv : v.value? = some x) : Denotes (.number v) x
  | negated {op : Token} {v : Double} {x : ℚ} (hop : op.kind = .mark .dash) (hv : v.value? = some x) :
      Denotes (.unary op (.number v)) (-x)

/-- The number is whole, not negative and not above `2 ^ 64`. -/
structure IsSizeValue (x : ℚ) : Prop where
  whole : ∃ z : ℤ, x = z
  nonneg : 0 ≤ x
  le : x ≤ 2 ^ 64

variable {e : Expr} {v : Double} {x : ℚ}

/-! ## Judging a size -/

/-- The numbers that are sizes are the natural numbers up to the bound. -/
theorem isSizeValue_iff : IsSizeValue x ↔ ∃ n : Nat, x = n ∧ n ≤ 2 ^ 64 := by
  constructor
  · rintro ⟨⟨z, rfl⟩, hnonneg, hle⟩
    obtain ⟨n, rfl⟩ := Int.eq_ofNat_of_zero_le (by exact_mod_cast hnonneg : 0 ≤ z)
    exact ⟨n, rfl, by exact_mod_cast hle⟩
  · rintro ⟨n, rfl, hle⟩
    exact ⟨⟨n, rfl⟩, Nat.cast_nonneg n, by exact_mod_cast hle⟩

/-- An expression writes an exact number exactly if it writes out a double that stands for it: the opposite
double stands for the opposite number. -/
theorem Expr.denotes_iff : e.Denotes x ↔ ∃ v, WritesNumber e v ∧ v.value? = some x := by
  constructor
  · rintro (hv | ⟨hop, hv⟩)
    · exact ⟨_, .number _, hv⟩
    · refine ⟨_, .negated hop _, ?_⟩
      rw [Double.value?_neg, hv, Option.map_some]
  · rintro ⟨v, hwrites, hv⟩
    cases hwrites with
    | number => exact .number hv
    | negated hop w =>
      rw [Double.value?_neg, Option.map_eq_some_iff] at hv
      obtain ⟨y, hw, rfl⟩ := hv
      exact .negated hop hw

/-- An expression writes out one double, so it writes one exact number at most. -/
theorem WritesNumber.denotes_iff (h : WritesNumber e v) : e.Denotes x ↔ v.value? = some x := by
  rw [Expr.denotes_iff]
  constructor
  · rintro ⟨w, hw, hx⟩
    have hvw := Expr.literalValue?_eq_some_iff.2 hw
    rw [Expr.literalValue?_eq_some_iff.2 h, Option.some.injEq] at hvw
    rw [hvw, hx]
  · exact fun hx => ⟨v, h, hx⟩

theorem TypeRef.size?_eq_none_iff : size? v = none ↔ ∀ x, v.value? = some x → ¬ IsSizeValue x := by
  cases hv : v.value? with
  | none => exact iff_of_true (size?_of_value?_none hv) nofun
  | some x =>
    rw [size?_eq_none_iff_value hv]
    constructor
    · rintro h _ ⟨⟩ hx
      exact h ⟨hx.whole, hx.nonneg, hx.le⟩
    · rintro h ⟨hwhole, hnonneg, hle⟩
      exact h x rfl ⟨hwhole, hnonneg, hle⟩

/-- The size of a group, as a number, is the value that is written, up to the largest size. -/
theorem statesSize_iff {k : UInt64} :
    StatesSize e k ↔ ∃ x, e.Denotes x ∧ IsSizeValue x ∧ (k.toNat : ℚ) = min x (2 ^ 64 - 1) := by
  have hcast (n : Nat) : (k.toNat : ℚ) = min (n : ℚ) (2 ^ 64 - 1) ↔ k.toNat = min n (2 ^ 64 - 1) := by
    rw [← Nat.cast_inj (R := ℚ), Nat.cast_min, Nat.cast_pred (by decide), Nat.cast_pow, Nat.cast_ofNat]
  constructor
  · rintro ⟨v, n, hv, hn, hbound, hk⟩
    refine ⟨n, hv.denotes_iff.2 (Double.value?_eq_natCast_iff.2 hn), ?_, (hcast n).2 hk⟩
    exact isSizeValue_iff.2 ⟨n, rfl, hbound⟩
  · rintro ⟨x, hx, hsize, hk⟩
    obtain ⟨v, hv, hvalue⟩ := Expr.denotes_iff.1 hx
    obtain ⟨n, rfl, hbound⟩ := isSizeValue_iff.1 hsize
    exact ⟨v, n, hv, Double.value?_eq_natCast_iff.1 hvalue, hbound, (hcast n).1 hk⟩

namespace Expr

theorem statedSize_eq_sizeOutOfRange_iff {literal : String} :
    e.statedSize = .error (.sizeOutOfRange literal) ↔
      ∃ v, WritesNumber e v ∧ (∀ x, e.Denotes x → ¬ IsSizeValue x) ∧ literal = v.write .plain := by
  unfold statedSize
  constructor
  · intro h
    split at h
    · cases h
    · next v hv =>
      split at h
      · cases h
      · next hsize =>
        cases h
        have hwrites := literalValue?_eq_some_iff.1 hv
        refine ⟨v, hwrites, fun x hx => ?_, rfl⟩
        exact TypeRef.size?_eq_none_iff.1 hsize x (hwrites.denotes_iff.1 hx)
  · rintro ⟨v, hv, hsize, rfl⟩
    have hnone := TypeRef.size?_eq_none_iff.2 fun x hx => hsize x (hv.denotes_iff.2 hx)
    simp only [literalValue?_eq_some_iff.2 hv, hnone]

theorem statedSize_eq_sizeNotLiteral_iff {found : String} :
    e.statedSize = .error (.sizeNotLiteral found) ↔ (∀ v, ¬ WritesNumber e v) ∧ found = e.describe := by
  simp only [← literalValue?_eq_some_iff, ← Option.eq_none_iff_forall_ne_some]
  unfold statedSize
  constructor
  · intro h
    split at h
    · next hnone =>
      cases h
      exact ⟨hnone, rfl⟩
    · split at h <;> cases h
  · rintro ⟨hnone, rfl⟩
    simp only [hnone]

end Expr

namespace Parse

variable {s s' : Stream} {element : TypeRef}

section

variable {type : Power → Parse TypeRef} {expr : Power → Parse Expr} {s₁ : Stream}

theorem typeForm_group_eq_done_iff (h : groupParts type expr s = .done (element, e) s') {result : TypeRef} :
    typeForm type expr .group s = .done result s₁ ↔
      ∃ k, StatesSize e k ∧ result = .group element k ∧ s₁ = s' := by
  simp only [typeForm_group_of_groupParts h, ← Expr.statedSize_eq_ok_iff]
  cases e.statedSize with
  | ok k => simp [eq_comm]
  | error cause => simp

theorem typeForm_group_eq_fault_iff (h : groupParts type expr s = .done (element, e) s') {cause : Fault} :
    typeForm type expr .group s = .fault cause s₁ ↔ e.statedSize = .error cause ∧ s₁ = s' := by
  rw [typeForm_group_of_groupParts h]
  cases e.statedSize with
  | ok k => simp
  | error cause => simp [eq_comm]

end

/-- The check of sizes decides every size. Once the element and the size of a group are read, the group is
accepted exactly if the size is a number, perhaps with a dash before it, whose exact value is whole and
between zero and `2 ^ 64`; then that value is the size, the largest size standing in for the bound. A number
with any other value, or with none, is refused as out of range, and an expression that writes no number
as such. -/
theorem typeForm_group_judged (t : Tables)
    (h : groupParts (readType t) (readExpr t.expressions) s = .done (element, e) s') :
    (∀ type s₁, typeForm (readType t) (readExpr t.expressions) .group s = .done type s₁ ↔
      ∃ x, ∃ k : UInt64, e.Denotes x ∧ IsSizeValue x ∧ (k.toNat : ℚ) = min x (2 ^ 64 - 1) ∧
        type = .group element k ∧ s₁ = s') ∧
    (∀ literal s₁, typeForm (readType t) (readExpr t.expressions) .group s =
        .fault (.sizeOutOfRange literal) s₁ ↔
      ∃ v, WritesNumber e v ∧ (∀ x, e.Denotes x → ¬ IsSizeValue x) ∧ literal = v.write .plain ∧ s₁ = s') ∧
    (∀ found s₁, typeForm (readType t) (readExpr t.expressions) .group s =
        .fault (.sizeNotLiteral found) s₁ ↔
      (∀ v, ¬ WritesNumber e v) ∧ found = e.describe ∧ s₁ = s') := by
  refine ⟨fun type s₁ => ?_, fun literal s₁ => ?_, fun found s₁ => ?_⟩
  · rw [typeForm_group_eq_done_iff h]
    constructor
    · rintro ⟨k, hk, htype, hs₁⟩
      obtain ⟨x, hx, hsize, hk⟩ := statesSize_iff.1 hk
      exact ⟨x, k, hx, hsize, hk, htype, hs₁⟩
    · rintro ⟨x, k, hx, hsize, hk, htype, hs₁⟩
      exact ⟨k, statesSize_iff.2 ⟨x, hx, hsize, hk⟩, htype, hs₁⟩
  · rw [typeForm_group_eq_fault_iff h, Expr.statedSize_eq_sizeOutOfRange_iff]
    constructor
    · rintro ⟨⟨v, hv, hx, hliteral⟩, hs₁⟩
      exact ⟨v, hv, hx, hliteral, hs₁⟩
    · rintro ⟨v, hv, hx, hliteral, hs₁⟩
      exact ⟨⟨v, hv, hx, hliteral⟩, hs₁⟩
  · rw [typeForm_group_eq_fault_iff h, Expr.statedSize_eq_sizeNotLiteral_iff, and_assoc]

/-- `grp<int, (-(0))>` is a group of size zero, for the size is the negative zero, in parentheses twice; and
`grp<int, -4>` is refused, for four is a size but its opposite is not. -/
theorem typeForm_group_judged_dash :
    (∃ s, s.rest = [⟨.word .grp, "grp"⟩, ⟨.mark .less, "<"⟩, ⟨.identifier, "int"⟩, ⟨.mark .comma, ","⟩,
        ⟨.mark .openParen, "("⟩, ⟨.mark .dash, "-"⟩, ⟨.mark .openParen, "("⟩, ⟨.number, "0"⟩,
        ⟨.mark .closeParen, ")"⟩, ⟨.mark .closeParen, ")"⟩, ⟨.mark .greater, ">"⟩, .endOfInput] ∧
      ∃ s', groupParts (readType .standard) (readExpr .standard) s =
        .done (.named "int", .unary ⟨.mark .dash, "-"⟩ (.number .zero)) s' ∧
      typeForm (readType .standard) (readExpr .standard) .group s =
        .done (.group (.named "int") 0) s') ∧
    ∃ s, s.rest = [⟨.word .grp, "grp"⟩, ⟨.mark .less, "<"⟩, ⟨.identifier, "int"⟩, ⟨.mark .comma, ","⟩,
        ⟨.mark .dash, "-"⟩, ⟨.number, "4"⟩, ⟨.mark .greater, ">"⟩, .endOfInput] ∧
      ∃ s', groupParts (readType .standard) (readExpr .standard) s =
        .done (.named "int", .unary ⟨.mark .dash, "-"⟩ (.number (.ofNat 4))) s' ∧
      IsSizeValue 4 ∧ typeForm (readType .standard) (readExpr .standard) .group s =
        .fault (.sizeOutOfRange "-4") s' := by
  constructor
  · have hdenotes : Expr.Denotes (.unary ⟨.mark .dash, "-"⟩ (.number .zero)) (-0) :=
      .negated rfl Double.value?_zero
    have hsize : IsSizeValue (-0) := isSizeValue_iff.2 ⟨0, by norm_num, by decide⟩
    refine ⟨⟨0, _, _, 11, 0, [], rfl⟩, rfl, Exists.imp (fun s' hparts => ⟨hparts, ?_⟩) ?_⟩
    · exact ((typeForm_group_judged .standard hparts).1 _ _).2
        ⟨_, 0, hdenotes, hsize, by norm_num, rfl, rfl⟩
    · exact ⟨_, by with_unfolding_all rfl⟩
  · have hnat : (Double.ofNat 4).IsNat 4 := ⟨by decide +kernel, nofun, by decide +kernel⟩
    have hfour : (Double.ofNat 4).value? = some ((4 : Nat) : ℚ) := Double.value?_eq_natCast_iff.2 hnat
    have hdash : WritesNumber (.unary ⟨.mark .dash, "-"⟩ (.number (.ofNat 4))) (Double.ofNat 4).neg :=
      .negated rfl _
    have hrefused : ∀ x, Expr.Denotes (.unary ⟨.mark .dash, "-"⟩ (.number (.ofNat 4))) x →
        ¬ IsSizeValue x := by
      rintro x (hv | ⟨-, hv⟩) hsize
      rw [hfour, Option.some.injEq] at hv
      exact absurd hsize.nonneg (by rw [← hv]; norm_num)
    refine ⟨⟨0, _, _, 7, 0, [], rfl⟩, rfl, Exists.imp (fun s' hparts => ⟨hparts, ?_, ?_⟩) ?_⟩
    · exact isSizeValue_iff.2 ⟨4, by norm_num, by decide⟩
    · exact ((typeForm_group_judged .standard hparts).2.1 _ _).2
        ⟨_, hdash, hrefused, by decide +kernel, rfl⟩
    · exact ⟨_, by with_unfolding_all rfl⟩

end Parse

end ScriptFront
