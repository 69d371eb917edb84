import ScriptFront.Proofs.Nesting

/-!
# Runs that go the same way

Where two streams have the same tokens left, a parser does the same on both: what lies behind and what
was reported make no difference. It does the same also with more levels of nesting to open, unless it
runs out of the fewer it has. Both are said by one relation between parsers, `Parse.Agree`: from streams
that are alike the runs come to related values at streams that are alike, or to the same fault, or, if
that is allowed, the first is cut short by the bound on nesting. Each way of putting parsers together
keeps the relation (`Parse.agree_congruence`), so it holds of whole statements (`Parse.stmtWithin_agree`).
-/

namespace ScriptFront

/-- The streams have the same tokens left. -/
def Stream.Alike (s s' : Stream) : Prop := s.rest = s'.rest

namespace Stream.Alike

variable {s s' : Stream}

theorem current_eq (h : s.Alike s') : s.current = s'.current := by
  injection h

theorem remaining_eq (h : s.Alike s') : s.remaining = s'.remaining := by
  have hlength := congrArg List.length h
  rw [length_rest, length_rest] at hlength
  omega

theorem advance (h : s.Alike s') : s.advance.Alike s'.advance := by
  have hahead : s.ahead = s'.ahead := by injection h
  unfold Alike
  cases hs : s.ahead with
  | nil => rw [rest_advance_last hs, rest_advance_last (hahead ▸ hs), h]
  | cons t ts => rw [rest_advance hs, rest_advance (hahead ▸ hs)]

end Stream.Alike

variable {α β γ δ : Type}

/-- Related values at streams that are alike, or the same fault, or no end to either; or else the first
was cut short. -/
inductive Outcome.Agree (cut : Prop) (R : α → β → Prop) : Outcome α → Outcome β → Prop where
  | done {a : α} {b : β} {s s' : Stream} (hR : R a b) (hs : s.Alike s') :
      Agree cut R (.done a s) (.done b s')
  | fault (cause : Fault) (s s' : Stream) : Agree cut R (.fault cause s) (.fault cause s')
  | endless : Agree cut R .endless .endless
  | tooDeep (hcut : cut) (s : Stream) (o : Outcome β) :
      Agree cut R (.fault (.tooDeep maxNesting) s) o

/-- Rounds that both end or both go on, with related values. -/
inductive Parse.Round.Agree (R : α → β → Prop) : Parse.Round α → Parse.Round β → Prop where
  | again {a : α} {b : β} (hR : R a b) : Agree R (.again a) (.again b)
  | last {a : α} {b : β} (hR : R a b) : Agree R (.over a) (.over b)

namespace Parse

/-- From streams that are alike the outcomes agree. -/
def Agree (cut : Prop) (R : α → β → Prop) (p : Parse α) (q : Parse β) : Prop :=
  ∀ s s', s.Alike s' → (p s).Agree cut R (q s')

namespace Agree

variable {cut : Prop} {R : α → β → Prop} {R' : γ → δ → Prop} {p : Parse α} {q : Parse β}

theorem pure {a : α} {b : β} (h : R a b) : Agree cut R (Pure.pure a) (Pure.pure b) :=
  fun _ _ hs => .done h hs

theorem fail (cause : Fault) : Agree cut R (fail cause) (fail cause) :=
  fun s s' _ => .fault cause s s'

theorem never : Agree cut R never never := fun _ _ _ => .endless

theorem tooDeep (h : cut) : Agree cut R (Parse.fail (.tooDeep maxNesting)) q :=
  fun s s' _ => .tooDeep h s (q s')

theorem bind {f : α → Parse γ} {g : β → Parse δ} (h : Agree cut R p q)
    (h' : ∀ a b, R a b → Agree cut R' (f a) (g b)) : Agree cut R' (p >>= f) (q >>= g) := by
  intro s s' hs
  have hagree := h s s' hs
  generalize hp : p s = o, hq : q s' = o' at hagree
  cases hagree with
  | done hR hs₁ =>
    rw [bind_done hp, bind_done hq]
    exact h' _ _ hR _ _ hs₁
  | fault cause s₁ s₁' =>
    rw [bind_fault hp, bind_fault hq]
    exact .fault cause s₁ s₁'
  | endless =>
    rw [bind_endless hp, bind_endless hq]
    exact .endless
  | tooDeep hcut s₁ =>
    rw [bind_fault hp]
    exact .tooDeep hcut s₁ _

theorem mono {S : α → β → Prop} (hRS : ∀ a b, R a b → S a b) (h : Agree cut R p q) : Agree cut S p q := by
  intro s s' hs
  have hagree := h s s' hs
  generalize p s = o, q s' = o' at hagree ⊢
  cases hagree with
  | done hR hs₁ => exact .done (hRS _ _ hR) hs₁
  | fault cause s₁ s₁' => exact .fault cause s₁ s₁'
  | endless => exact .endless
  | tooDeep hcut s₁ => exact .tooDeep hcut s₁ _

/-- Steps after parsers that come to the same value. -/
theorem bind_eq {p q : Parse α} {f : α → Parse γ} {g : α → Parse δ} (h : Agree cut Eq p q)
    (h' : ∀ a, Agree cut R' (f a) (g a)) : Agree cut R' (p >>= f) (q >>= g) := by
  refine h.bind fun a b hab => ?_
  subst hab
  exact h' a

theorem current : Agree cut Eq current current := fun _ _ hs => .done hs.current_eq hs

theorem kind : Agree cut Eq kind kind := fun _ _ hs => .done (congrArg Token.kind hs.current_eq) hs

theorem advance : Agree cut Eq advance advance := fun _ _ hs => .done hs.current_eq hs.advance

/-- What is reported makes no difference. -/
theorem record (event event' : Event) : Agree cut Eq (record event) (record event') :=
  fun _ _ hs => .done rfl hs

theorem expectOr (k : Kind) (cause : Token → Fault) :
    Agree cut Eq (expectOr k cause) (expectOr k cause) := by
  intro s s' hs
  unfold Parse.expectOr
  rw [hs.current_eq]
  split
  · exact .done rfl hs.advance
  · exact .fault _ s s'

theorem ite {c : Prop} [Decidable c] {p' : Parse α} {q' : Parse β} (h : Agree cut R p q)
    (h' : Agree cut R p' q') : Agree cut R (if c then p else p') (if c then q else q') := by
  split
  · exact h
  · exact h'

theorem loop {round : α → Parse (Round α)} {round' : β → Parse (Round β)}
    (h : ∀ a b, R a b → Agree cut (Round.Agree R) (round a) (round' b)) {a : α} {b : β} (hR : R a b) :
    Agree cut R (loop round a) (loop round' b) := by
  intro s s' hs
  generalize hn : s.remaining = n
  induction n using Nat.strongRecOn generalizing a b s s' with
  | ind n ih =>
    have hround := h a b hR s s' hs
    rw [Parse.loop, Parse.loop]
    generalize round a s = o, round' b s' = o' at hround
    cases hround with
    | @done _ _ s₁ s₁' hround hs₁ =>
      cases hround with
      | last hR => exact .done hR hs₁
      | again hR =>
        simp only [hs₁.remaining_eq, hs.remaining_eq]
        split
        · next hlt =>
          have hlt : s₁.remaining < n := by rwa [← hn, hs.remaining_eq, hs₁.remaining_eq]
          exact ih _ hlt hR _ _ hs₁ rfl
        · exact .endless
    | fault cause s₁ s₁' => exact .fault cause s₁ s₁'
    | endless => exact .endless
    | tooDeep hcut s₁ => exact .tooDeep hcut s₁ _

end Agree

/-- To go the same way is kept by whatever parsers are put together from. -/
theorem agree_congruence (cut : Prop) : Congruence fun _ p q => Agree cut Eq p q where
  mono _ h := h
  pure _ := .pure rfl
  fail _ := .fail _
  bind h h' := h.bind_eq h'
  bind_moves h h' := h.bind_eq h'
  current := .current
  advance := .advance
  record event := .record event event
  expectOr _ _ := .expectOr _ _
  literal := by
    refine Agree.advance.bind_eq fun token => ?_
    cases token.toExpr with
    | ok e => exact .pure rfl
    | error cause => exact .fail cause
  loop h a := by
    refine Agree.loop (fun a b hab => ?_) rfl
    subst hab
    refine (h a).mono fun r r' hr => ?_
    subst hr
    rcases r with b | b
    · exact .again rfl
    · exact .last rfl

theorem agree_covers {cut : Prop} {σ τ : Type} (g : Grammar σ τ) :
    Covers (fun _ p q => Agree cut Eq p q) g :=
  fun _ _ _ _ _ _ _ _ => .fail _

theorem agree_coversTables {cut : Prop} (t : Tables) : CoversTables (fun _ p q => Agree cut Eq p q) t :=
  ⟨agree_covers _, agree_covers _, fun _ => .never⟩

/-- With more levels to open, a run goes the same way until the fewer run out. -/
theorem agree_rooms {cut : Prop} {n m : Nat} (hnm : n ≤ m) (hcut : n < m → cut) :
    Rooms (fun _ p q => Agree cut Eq p q) n m :=
  ⟨hnm, fun hlt _ _ => .tooDeep (hcut hlt)⟩

section Readers

variable {cut : Prop} {n m : Nat}

/-- With more levels to open an expression is read in the same way, unless the fewer run out. -/
theorem exprWithin_agree (g : ExprGrammar) (hnm : n ≤ m) (hcut : n < m → cut) (bound : Power) :
    Agree cut Eq (exprWithin g n bound) (exprWithin g m bound) :=
  (agree_congruence cut).exprWithin (agree_covers g) (agree_rooms hnm hcut) bound

theorem typeWithin_agree (t : Tables) (hnm : n ≤ m) (hcut : n < m → cut) (bound : Power) :
    Agree cut Eq (typeWithin t n bound) (typeWithin t m bound) :=
  (agree_congruence cut).typeWithin (agree_covers _) (agree_covers _) (agree_rooms hnm hcut) bound

/-- With more levels to open a statement is read in the same way, unless the fewer run out. -/
theorem stmtWithin_agree (t : Tables) (hnm : n ≤ m) (hcut : n < m → cut) :
    Agree cut Eq (stmtWithin t n) (stmtWithin t m) :=
  (agree_congruence cut).stmtWithin (agree_coversTables t) (agree_rooms hnm hcut)

/-- Reading a sequence goes on in the same way after other items that are of no consequence. -/
theorem loop_collect_agree {R : List α → List α → Prop} {stop : Kind → Prop} [DecidablePred stop]
    {item item' : List α → Parse α} (hitem : ∀ a b, R a b → Agree cut Eq (item a) (item' b))
    (hcons : ∀ x a b, R a b → R (x :: a) (x :: b)) {before before' : List α}
    (hR : R before before') :
    Agree cut R (loop (collect stop item) before) (loop (collect stop item') before') := by
  refine Agree.loop (fun a b hab => ?_) hR
  refine Agree.kind.bind_eq fun k => .ite (.pure (.last hab)) ?_
  exact (hitem a b hab).bind_eq fun x => .pure (.again (hcons x a b hab))

end Readers

end Parse

end ScriptFront
