import ScriptFront.Proofs.Expression.Sound
import ScriptFront.Proofs.Program.Grammar
import ScriptFront.Proofs.Value

/-!
# Types are read as the grammar writes them

Reading a type succeeds on exactly the tokens that write one, with the type they write. The size of a
group is judged after it has been read (`Expr.statedSize_eq_ok_iff`), so what it may be is a condition
on its tree. The judgement compares and casts doubles; it comes to a condition on the natural number that the
double is (`TypeRef.size?_eq_bind`).
-/

namespace ScriptFront

/-! ## Sizes -/

namespace TypeRef

variable {d : Double} {x : ℚ}

/-- A number is refused as a size exactly if it is not whole, below zero or above `2 ^ 64`: the largest size is
rounded up to it. -/
theorem size?_eq_none_iff_value (h : d.value? = some x) :
    size? d = none ↔ ¬ ((∃ z : ℤ, x = z) ∧ 0 ≤ x ∧ x ≤ 2 ^ 64) := by
  have hmax : (Double.ofNat (UInt64.size - 1)).value? = some (2 ^ 64) := by
    have hvalue := Double.value?_eq_natCast_iff.2 Double.isNat_ofNat_max
    rwa [Nat.cast_pow, Nat.cast_ofNat] at hvalue
  rw [← Double.fract_same_zero_iff h, ← not_lt, ← not_lt, ← Double.lt_iff h Double.value?_zero,
    ← Double.lt_iff hmax h, size?, ite_eq_left_iff]
  simp [or_assoc, imp_iff_or_not]

theorem size?_of_value?_none (h : d.value? = none) : size? d = none := by
  rw [size?, Double.fract_same_zero_of_value?_none h]
  rfl

theorem size?_of_ne_none (h : size? d ≠ none) : size? d = some d.toUInt64 := by
  unfold size? at h ⊢
  split at h
  · exact absurd rfl h
  · next haccepted => rw [if_neg haccepted]

/-- The judgement of a size, said of natural numbers: those up to `2 ^ 64` are sizes, as far as they fit. -/
theorem size?_eq_bind (d : Double) :
    size? d = d.toNat?.bind fun n => if n ≤ 2 ^ 64 then some (.ofNatClamp n) else none := by
  have hbound (n : Nat) : ((n : ℚ) ≤ 2 ^ 64) ↔ n ≤ 2 ^ 64 := by exact_mod_cast Iff.rfl
  cases hn : d.toNat? with
  | some n =>
    have hnat := Double.toNat?_eq_some_iff.1 hn
    have hnone := size?_eq_none_iff_value (Double.value?_eq_natCast_iff.2 hnat)
    rw [hbound] at hnone
    rw [Option.bind_some]
    split
    · next hle =>
      rw [size?_of_ne_none, Double.toUInt64_of_isNat hnat]
      exact fun hrefused => hnone.1 hrefused ⟨⟨n, rfl⟩, Nat.cast_nonneg n, hle⟩
    · next hlarge => exact hnone.2 fun hsize => hlarge hsize.2.2
  | none =>
    rw [Option.bind_none]
    cases hvalue : d.value? with
    | none => exact size?_of_value?_none hvalue
    | some x =>
      refine (size?_eq_none_iff_value hvalue).2 ?_
      rintro ⟨⟨z, rfl⟩, hnonneg, -⟩
      -- a whole number that is not negative would be a natural number
      obtain ⟨n, rfl⟩ := Int.eq_ofNat_of_zero_le (by exact_mod_cast hnonneg : 0 ≤ z)
      rw [Double.toNat?_eq_some_iff.2 (Double.value?_eq_natCast_iff.1 hvalue)] at hn
      cases hn

theorem size?_eq_some_iff {size : UInt64} :
    size? d = some size ↔ ∃ n, d.IsNat n ∧ n ≤ 2 ^ 64 ∧ size.toNat = min n (2 ^ 64 - 1) := by
  simp only [size?_eq_bind, Option.bind_eq_some_iff, Double.toNat?_eq_some_iff, ← Double.toNat_ofNatClamp]
  refine exists_congr fun n => and_congr_right fun _ => ?_
  split
  · next hle => rw [and_iff_right hle, Option.some.injEq, UInt64.toNat_inj, eq_comm]
  · next hlarge => exact iff_of_false nofun fun h => hlarge h.1

end TypeRef

theorem Expr.literalValue?_eq_some_iff {e : Expr} {v : Double} :
    e.literalValue? = some v ↔ WritesNumber e v := by
  constructor
  · intro h
    unfold literalValue? at h
    split at h
    · cases h
      exact .number _
    · split at h
      · next hop =>
        cases h
        exact .negated hop _
      · cases h
    · cases h
  · rintro (v | ⟨hop, v⟩)
    · rfl
    · simp [literalValue?, hop]

/-- A size is judged by what the tree says and by nothing else. -/
theorem Expr.statedSize_eq_ok_iff {e : Expr} {size : UInt64} :
    e.statedSize = .ok size ↔ StatesSize e size := by
  unfold statedSize StatesSize
  constructor
  · intro h
    split at h
    · cases h
    · next v hv =>
      split at h
      · next size' hsize =>
        obtain rfl : size' = size := by injection h
        obtain ⟨n, hn⟩ := TypeRef.size?_eq_some_iff.1 hsize
        exact ⟨v, n, literalValue?_eq_some_iff.1 hv, hn⟩
      · cases h
  · rintro ⟨v, n, hv, hn⟩
    simp only [literalValue?_eq_some_iff.2 hv, TypeRef.size?_eq_some_iff.2 ⟨n, hn⟩]

namespace Parse

variable {n : Nat} {s s' : Stream} {ts : List Token} {type : TypeRef} {b : Power}

/-- No token continues a type, so a type is what its first form reads. -/
theorem typeWithin_succ (n : Nat) (b : Power) (s : Stream) :
    typeWithin .standard (n + 1) b s =
      operand .typeRef TypeGrammar.standard
        (typeForm (typeWithin .standard n) (exprWithin .standard n)) s := by
  rw [typeWithin, climb]
  cases h : operand .typeRef Tables.standard.types
      (typeForm (typeWithin .standard n) (exprWithin Tables.standard.expressions n)) s with
  | done type s₁ =>
    rw [bind_done h]
    exact (extend_over (Nat.zero_le _)).trans h.symm
  | fault cause s₁ => exact (bind_fault h).trans h.symm
  | endless => exact (bind_endless h).trans h.symm

theorem typeForm_reads {t : Token} {us : List Token} {form : TypeForm} (hs : s.rest = t :: us)
    (hform : TypeGrammar.standard.starts t.kind = some form)
    (h : (typeForm (typeWithin .standard n) (exprWithin .standard n) form).Reads s ts type) :
    (typeWithin .standard (n + 1) b).Reads s ts type := by
  obtain ⟨s', hrun, hpass⟩ := h
  refine ⟨s', ?_, hpass⟩
  rw [typeWithin_succ, operand, current_bind, Stream.current_of_rest hs]
  simp only [hform]
  exact hrun

section Groups

variable {type : Power → Parse TypeRef} {expr : Power → Parse Expr} {element : TypeRef} {e : Expr}

/-- The parts of a group are read from the tokens that write them. -/
theorem groupParts_reads {grp less comma greater k : Token} {us rest : List Token}
    (hgrp : grp.kind = .word .grp) (hless : less.kind = .mark .less) (hcomma : comma.kind = .mark .comma)
    (hgreater : greater.kind = .mark .greater)
    (hs : s.rest = grp :: less :: (ts ++ comma :: (us ++ greater :: k :: rest)))
    (htype : ∀ s, s.rest = ts ++ comma :: (us ++ greater :: k :: rest) → (type .lowest).Reads s ts element)
    (hexpr : ∀ s, s.rest = us ++ greater :: k :: rest → (expr .relational).Reads s us e) :
    (groupParts type expr).Reads s (grp :: less :: (ts ++ comma :: (us ++ [greater]))) (element, e) := by
  refine Reads.expectOr_bind hs (by simp) hgrp fun s₁ hs₁ => ?_
  refine Reads.expectOr_bind hs₁ (by simp) hless fun s₂ hs₂ => ?_
  refine (htype s₂ hs₂).bind fun s₃ hpass => ?_
  refine Reads.expectOr_bind (hpass.rest_eq hs₂) (by simp) hcomma fun s₄ hs₄ => ?_
  refine (hexpr s₄ hs₄).bind fun s₅ hpass => ?_
  exact Reads.expectOr_bind (hpass.rest_eq hs₄) (by simp) hgreater fun s₆ _ => .pure _ s₆

/-- A group whose parts are read is accepted or refused by what its size says, where its parts end. -/
theorem typeForm_group_of_groupParts (h : groupParts type expr s = .done (element, e) s') :
    typeForm type expr .group s = match e.statedSize with
      | .ok size => .done (.group element size) s'
      | .error cause => .fault cause s' := by
  rw [typeForm, bind_done h]
  cases e.statedSize <;> rfl

end Groups

end Parse

/-- A type of the grammar is read, whatever follows it. -/
theorem DerivesType.reads {n : Nat} {ts : List Token} {type : TypeRef} (h : DerivesType n ts type) :
    ∀ {s : Stream} {k : Token} {rest : List Token} {b : Power}, s.rest = ts ++ k :: rest →
      (Parse.typeWithin .standard n b).Reads s ts type := by
  induction h with
  | named hk =>
    intro s k rest b hs
    refine Parse.typeForm_reads hs (by rw [hk]; rfl) ?_
    exact Parse.Reads.expectOr_bind hs (by simp) hk fun s' _ => .pure _ s'
  | group hgrp hless _ hcomma he hgreater hsize ih =>
    intro s k rest b hs
    simp only [List.cons_append, List.append_assoc, List.nil_append] at hs
    have hpower : ExprGrammar.standard.power (.mark .greater) ≤ .relational := by decide
    obtain ⟨s', hparts, hpass⟩ := Parse.groupParts_reads hgrp hless hcomma hgreater hs (fun _ hs => ih hs)
      fun _ hs => he.reads (b := .relational) rfl hs (hgreater ▸ hpower)
    refine Parse.typeForm_reads hs (by rw [hgrp]; rfl) ⟨s', ?_, hpass⟩
    rw [Parse.typeForm_group_of_groupParts hparts, Expr.statedSize_eq_ok_iff.2 hsize]

namespace Parse

variable {n : Nat} {s s' : Stream} {type : TypeRef} {b : Power}

/-- Whatever is read as a type, the grammar derives. -/
theorem typeWithin_sound (hs : s.Closed) (h : typeWithin .standard n b s = .done type s') :
    ∃ ts, s.Passes ts s' ∧ DerivesType n ts type := by
  induction n generalizing s s' type b with
  | zero => cases h
  | succ n ih =>
    rw [typeWithin_succ, operand, current_bind] at h
    cases hform : TypeGrammar.standard.starts s.current.kind with
    | none => simp [hform] at h
    | some form =>
      simp only [hform] at h
      cases form with
      | named =>
        obtain ⟨name, s₁, hname, h⟩ := bind_eq_done.1 h
        obtain ⟨rfl, rfl⟩ := pure_eq_done.1 h
        obtain ⟨hk, hpass⟩ := passes_of_expectOr hs (by simp) hname
        exact ⟨[name], hpass, .named hk⟩
      | group =>
        obtain ⟨parts, s₆, hparts, h⟩ := bind_eq_done.1 h
        obtain ⟨grp, s₁, hgrp, hparts⟩ := bind_eq_done.1 hparts
        obtain ⟨less, s₂, hless, hparts⟩ := bind_eq_done.1 hparts
        obtain ⟨element, s₃, helement, hparts⟩ := bind_eq_done.1 hparts
        obtain ⟨comma, s₄, hcomma, hparts⟩ := bind_eq_done.1 hparts
        obtain ⟨e, s₅, he, hparts⟩ := bind_eq_done.1 hparts
        obtain ⟨greater, s₆', hgreater, hparts⟩ := bind_eq_done.1 hparts
        obtain ⟨rfl, rfl⟩ := pure_eq_done.1 hparts
        obtain ⟨hgrp, hpass₁⟩ := passes_of_expectOr hs (by simp) hgrp
        have hs₁ := hpass₁.closed hs
        obtain ⟨hless, hpass₂⟩ := passes_of_expectOr hs₁ (by simp) hless
        have hs₂ := hpass₂.closed hs₁
        obtain ⟨ts, hpass₃, hts⟩ := ih hs₂ helement
        have hs₃ := hpass₃.closed hs₂
        obtain ⟨hcomma, hpass₄⟩ := passes_of_expectOr hs₃ (by simp) hcomma
        have hs₄ := hpass₄.closed hs₃
        obtain ⟨us, hpass₅, hus, -⟩ := (exprWithin_sound n).1 rfl hs₄ he
        obtain ⟨hgreater, hpass₆⟩ := passes_of_expectOr (hpass₅.closed hs₄) (by simp) hgreater
        cases hsize : e.statedSize with
        | error cause => simp [hsize] at h
        | ok size =>
          simp only [hsize] at h
          obtain ⟨rfl, rfl⟩ := pure_eq_done.1 h
          have hsize := Expr.statedSize_eq_ok_iff.1 hsize
          have hpass := hpass₁.trans (hpass₂.trans (hpass₃.trans (hpass₄.trans (hpass₅.trans hpass₆))))
          exact ⟨_, hpass, .group hgrp hless hts hcomma hus hgreater hsize⟩

end Parse

/-- The answer for a list of tokens is the type at their start, if an end token comes after it. -/
theorem parseType_of_ofTokens {tokens : List Token} {s : Stream} (hs : Stream.ofTokens tokens = .ok s) :
    parseType tokens =
      match Parse.typeWithin .standard maxNesting .lowest s with
      | .done type s' =>
        if s'.current.kind = .endOfInput then .ok type
        else .fault (.unexpected .endOfInput s'.current.kind s'.current.lexeme)
      | .fault cause _ => .fault cause
      | .endless => .endless := by
  have hread := Parse.readType_eq .standard .lowest s
  rw [Stream.room_of_ofTokens hs] at hread
  simp only [parseType, parseTypeRun, Run.ofTokens, hs, Parse.wholeType]
  cases h : Parse.typeWithin .standard maxNesting .lowest s with
  | done type s' =>
    rw [Parse.bind_done (hread.trans h)]
    by_cases hend : s'.current.kind = .endOfInput
    · have hlast : Parse.expect .endOfInput s' = .done s'.current s'.advance := if_pos hend
      rw [Parse.bind_done hlast]
      exact (if_pos hend).symm
    · have hlast : Parse.expect .endOfInput s' = .fault _ s' := if_neg hend
      rw [Parse.bind_fault hlast]
      exact (if_neg hend).symm
  | fault cause s' => rw [Parse.bind_fault (hread.trans h)]; rfl
  | endless => rw [Parse.bind_endless (hread.trans h)]; rfl

end ScriptFront
