import ScriptFront.Parse.Climb
import ScriptFront.Proofs.Stream

/-!
# Taking runs apart and putting them together

A run that comes to a value is the runs of its steps, one after the other (`Parse.bind_eq_done`), and a
fault of a run is the fault of one of them (`Parse.bind_eq_fault`). The steps that only look at the
current token or pass it can be carried out at once (`Parse.kind_bind` and its like). A loop that comes to
a value has a last round, from which `Parse.loop_induct` reasons back to the first.

`Parse.Reads p s ts a` is what such a run amounts to: from `s` the parser `p` comes to `a` when it has
passed the tokens `ts` and no others.
-/

namespace ScriptFront.Parse

variable {α β : Type} {s s' : Stream}

/-- From `s` the parser comes to `a` after the tokens `ts`. -/
def Reads (p : Parse α) (s : Stream) (ts : List Token) (a : α) : Prop :=
  ∃ s', p s = .done a s' ∧ s.Passes ts s'

/-! ## Single steps -/

@[simp] theorem current_bind (f : Token → Parse β) (s : Stream) :
    (current >>= f) s = f s.current s := rfl

@[simp] theorem kind_bind (f : Kind → Parse β) (s : Stream) :
    (kind >>= f) s = f s.current.kind s := rfl

@[simp] theorem advance_bind (f : Token → Parse β) (s : Stream) :
    (advance >>= f) s = f s.current s.advance := rfl

@[simp] theorem record_bind (event : Event) (f : Unit → Parse β) (s : Stream) :
    (record event >>= f) s = f () (s.record event) := rfl

@[simp] theorem pure_eq_done {a b : α} :
    (pure a : Parse α) s = .done b s' ↔ a = b ∧ s = s' := by
  rw [pure_apply, Outcome.done.injEq]

@[simp] theorem fail_ne_done {cause : Fault} {a : α} : fail cause s ≠ .done a s' := nofun

@[simp] theorem never_ne_done {a : α} : never s ≠ .done a s' := nofun

theorem bind_eq_done {p : Parse α} {f : α → Parse β} {b : β} :
    (p >>= f) s = .done b s' ↔ ∃ a s₁, p s = .done a s₁ ∧ f a s₁ = .done b s' := by
  constructor
  · intro h
    cases hp : p s with
    | done a s₁ => exact ⟨a, s₁, rfl, by rwa [bind_done hp] at h⟩
    | fault cause s₁ => rw [bind_fault hp] at h; cases h
    | endless => rw [bind_endless hp] at h; cases h
  · rintro ⟨a, s₁, hp, hf⟩
    rw [bind_done hp, hf]

theorem bind_eq_fault {p : Parse α} {f : α → Parse β} {cause : Fault} :
    (p >>= f) s = .fault cause s' ↔
      p s = .fault cause s' ∨ ∃ a s₁, p s = .done a s₁ ∧ f a s₁ = .fault cause s' := by
  constructor
  · intro h
    cases hp : p s with
    | done a s₁ => exact .inr ⟨a, s₁, rfl, by rwa [bind_done hp] at h⟩
    | fault cause' s₁ =>
      rw [bind_fault hp] at h
      cases h
      exact .inl rfl
    | endless => rw [bind_endless hp] at h; cases h
  · rintro (hp | ⟨a, s₁, hp, hf⟩)
    · exact bind_fault hp
    · rw [bind_done hp, hf]

theorem expectOr_eq_done {k : Kind} {cause : Token → Fault} {t : Token} :
    expectOr k cause s = .done t s' ↔ s.current.kind = k ∧ s.current = t ∧ s.advance = s' := by
  unfold expectOr
  split <;> simp_all

/-- An expected token is passed. -/
theorem passes_of_expectOr {k : Kind} {cause : Token → Fault} {t : Token} (hs : s.Closed)
    (hk : k ≠ .endOfInput) (h : expectOr k cause s = .done t s') :
    t.kind = k ∧ s.Passes [t] s' := by
  obtain ⟨rfl, rfl, rfl⟩ := expectOr_eq_done.1 h
  exact ⟨rfl, s.passes_advance hs hk⟩

/-! ## Reading in sequence -/

namespace Reads

theorem pure (a : α) (s : Stream) : (Pure.pure a : Parse α).Reads s [] a := ⟨s, rfl, .refl s⟩

theorem bind {p : Parse α} {f : α → Parse β} {ts ts' : List Token} {a : α} {b : β}
    (h : p.Reads s ts a) (h' : ∀ s', s.Passes ts s' → (f a).Reads s' ts' b) :
    (p >>= f).Reads s (ts ++ ts') b := by
  obtain ⟨s₁, hp, hpass⟩ := h
  obtain ⟨s₂, hf, hpass'⟩ := h' s₁ hpass
  exact ⟨s₂, by rw [bind_done hp, hf], hpass.trans hpass'⟩

theorem bind_pure {p : Parse α} {ts : List Token} {a : α} (g : α → β) (h : p.Reads s ts a) :
    (p >>= fun a => Pure.pure (g a)).Reads s ts (g a) := by
  obtain ⟨s', hp, hpass⟩ := h
  exact ⟨s', by rw [bind_done hp]; rfl, hpass⟩

/-- The token in front is passed and the rest is read after it. -/
theorem advance_bind {f : Token → Parse β} {t : Token} {ts us : List Token} {b : β}
    (hs : s.rest = t :: us) (hus : us ≠ []) (h : ∀ s', s'.rest = us → (f t).Reads s' ts b) :
    (advance >>= f).Reads s (t :: ts) b := by
  have hpass := Stream.passes_advance_of_rest hs hus
  have hadvance : advance.Reads s [t] t :=
    ⟨s.advance, by rw [advance, Stream.current_of_rest hs], hpass⟩
  exact hadvance.bind fun s' hs' => h s' (hs'.rest_eq hs)

/-- The expected token is in front: it is passed and the rest is read after it. -/
theorem expectOr_bind {f : Token → Parse β} {k : Kind} {cause : Token → Fault} {t : Token}
    {ts us : List Token} {b : β} (hs : s.rest = t :: us) (hus : us ≠ []) (hk : t.kind = k)
    (h : ∀ s', s'.rest = us → (f t).Reads s' ts b) :
    (expectOr k cause >>= f).Reads s (t :: ts) b := by
  have hcurrent := Stream.current_of_rest hs
  have hpass := Stream.passes_advance_of_rest hs hus
  have hexpect : (expectOr k cause).Reads s [t] t :=
    ⟨s.advance, expectOr_eq_done.2 ⟨by rw [hcurrent, hk], hcurrent, rfl⟩, hpass⟩
  exact hexpect.bind fun s' hs' => h s' (hs'.rest_eq hs)

/-- A step that depends on the kind of the token in front. -/
theorem kind_bind {f : Kind → Parse β} {ts : List Token} {b : β}
    (h : (f s.current.kind).Reads s ts b) : (kind >>= f).Reads s ts b := h

end Reads

/-! ## Loops -/

/-- A loop that comes to a value has a last round, or a round that passes a token and others after it. -/
theorem loop_eq_done {round : α → Parse (Round α)} {a b : α} :
    loop round a s = .done b s' ↔
      round a s = .done (.over b) s' ∨
        ∃ a' s₁, round a s = .done (.again a') s₁ ∧ s₁.remaining < s.remaining ∧
          loop round a' s₁ = .done b s' := by
  constructor
  · intro h
    rw [loop] at h
    split at h
    · next hr =>
      cases h
      exact .inl hr
    · next a' s₁ hr =>
      split at h
      · next hlt => exact .inr ⟨a', s₁, hr, hlt, h⟩
      · cases h
    · cases h
    · cases h
  · rintro (hr | ⟨a', s₁, hr, hlt, h⟩)
    · exact loop_over hr
    · rw [loop_again hr hlt, h]

theorem loop_eq_fault {round : α → Parse (Round α)} {a : α} {cause : Fault} :
    loop round a s = .fault cause s' ↔
      round a s = .fault cause s' ∨
        ∃ a' s₁, round a s = .done (.again a') s₁ ∧ s₁.remaining < s.remaining ∧
          loop round a' s₁ = .fault cause s' := by
  constructor
  · intro h
    rw [loop] at h
    split at h
    · cases h
    · next a' s₁ hr =>
      split at h
      · next hlt => exact .inr ⟨a', s₁, hr, hlt, h⟩
      · cases h
    · next hr =>
      cases h
      exact .inl hr
    · cases h
  · rintro (hr | ⟨a', s₁, hr, hlt, h⟩)
    · exact loop_fault hr
    · rw [loop_again hr hlt, h]

/-- A loop that comes to a value, seen from its last round. -/
@[elab_as_elim]
theorem loop_induct {round : α → Parse (Round α)} {b : α} {motive : α → Stream → Prop}
    (last : ∀ a s, round a s = .done (.over b) s' → motive a s)
    (again : ∀ a s c s₁, round a s = .done (.again c) s₁ → motive c s₁ → motive a s)
    {a : α} {s : Stream} (h : loop round a s = .done b s') : motive a s := by
  generalize hn : s.remaining = n
  induction n using Nat.strongRecOn generalizing a s with
  | ind n ih =>
    obtain hr | ⟨c, s₁, hr, hlt, h⟩ := loop_eq_done.1 h
    · exact last a s hr
    · exact again a s c s₁ hr (ih _ (hn ▸ hlt) h rfl)

theorem Reads.loop_over {round : α → Parse (Round α)} {ts : List Token} {a b : α}
    (h : (round a).Reads s ts (.over b)) : (loop round a).Reads s ts b := by
  obtain ⟨s', hround, hpass⟩ := h
  exact ⟨s', Parse.loop_over hround, hpass⟩

theorem Reads.loop_again {round : α → Parse (Round α)} {ts us : List Token} {a b c : α}
    (h : (round a).Reads s ts (.again c)) (hts : ts ≠ [])
    (h' : ∀ s', s.Passes ts s' → (loop round c).Reads s' us b) :
    (loop round a).Reads s (ts ++ us) b := by
  obtain ⟨s₁, hround, hpass⟩ := h
  obtain ⟨s₂, hloop, hpass'⟩ := h' s₁ hpass
  refine ⟨s₂, ?_, hpass.trans hpass'⟩
  rw [Parse.loop_again hround (hpass.remaining_lt hts), hloop]

section Extend

variable {σ τ : Type} {phrase : Phrase} {g : Grammar σ τ} {more : τ → Power → α → Parse α}
  {bound : Power} {left : α}

/-- A phrase is complete before a token that does not bind more tightly than the bound. -/
theorem extend_over (h : g.power s.current.kind ≤ bound) :
    extend phrase g more bound left s = .done left s := by
  refine loop_over ?_
  rw [current_bind, if_pos h]
  rfl

/-- A phrase goes on with a token that binds more tightly than the bound. -/
theorem extend_again {form : τ} {left' : α} {s₁ : Stream}
    (h : ¬ g.power s.current.kind ≤ bound) (hform : g.continues s.current.kind = some form)
    (hmore : more form (g.power s.current.kind) left
      (s.record (.continued phrase s.current.kind (g.power s.current.kind))) = .done left' s₁)
    (hlt : s₁.remaining < s.remaining) :
    extend phrase g more bound left s = extend phrase g more bound left' s₁ := by
  refine loop_again ?_ hlt
  rw [current_bind, if_neg h]
  simp only [hform, record_bind]
  rw [bind_done hmore]
  rfl

/-- What a phrase becomes, seen from its last operator. -/
@[elab_as_elim]
theorem extend_induct {e : α} {motive : α → Stream → Prop}
    (last : g.power s'.current.kind ≤ bound → motive e s')
    (again : ∀ left s form left' s₁, ¬ g.power s.current.kind ≤ bound →
      g.continues s.current.kind = some form →
      more form (g.power s.current.kind) left
        (s.record (.continued phrase s.current.kind (g.power s.current.kind))) = .done left' s₁ →
      motive left' s₁ → motive left s)
    (h : extend phrase g more bound left s = .done e s') : motive left s := by
  refine loop_induct (fun left s hr => ?_) (fun left s left' s₁ hr hm => ?_) h
  · rw [current_bind] at hr
    by_cases hle : g.power s.current.kind ≤ bound
    · rw [if_pos hle] at hr
      obtain ⟨he, rfl⟩ := pure_eq_done.1 hr
      cases he
      exact last hle
    · rw [if_neg hle] at hr
      cases hform : g.continues s.current.kind with
      | none => simp [hform] at hr
      | some form =>
        simp only [hform, record_bind] at hr
        obtain ⟨left', s₁, -, hr⟩ := bind_eq_done.1 hr
        cases (pure_eq_done.1 hr).1
  · rw [current_bind] at hr
    by_cases hle : g.power s.current.kind ≤ bound
    · rw [if_pos hle] at hr
      cases (pure_eq_done.1 hr).1
    · rw [if_neg hle] at hr
      cases hform : g.continues s.current.kind with
      | none => simp [hform] at hr
      | some form =>
        simp only [hform, record_bind] at hr
        obtain ⟨left'', s₂, hmore, hr⟩ := bind_eq_done.1 hr
        obtain ⟨he, rfl⟩ := pure_eq_done.1 hr
        cases he
        exact again left s form left' _ hle hform hmore hm

end Extend

end ScriptFront.Parse
