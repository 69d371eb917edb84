import ScriptFront.Proofs.Nesting

/-!
# Reading moves on

Whatever the tables are, a run only ever goes from one place of its stream to a later one, and a reader
that comes to a value has passed a token. Passing the last token leaves the stream where it is, so a form
may well go on to its operands without having passed anything; but an operand cannot be read there, and
the levels of nesting run out before such a form has an end. So no loop makes a round without passing a
token, and the one way to a run that never ends is an entry for statements that leads back to the tables.

This is said by `Parse.Onward`, which each way of putting parsers together keeps
(`Parse.onward_congruence`). A reader that comes to a value only after a token is one that `Parse.Moves`; any
other merely `Parse.Keeps` to the stream.
-/

namespace ScriptFront

/-- Passing a token leads to the next one, or leaves the last one where it is. -/
theorem Stream.exists_passes_advance (s : Stream) : ∃ ts, s.Passes ts s.advance := by
  cases hahead : s.ahead with
  | nil =>
    refine ⟨[], (rest_advance_last hahead).symm, ?_⟩
    unfold advance
    split
    · rfl
    · next h => simp [hahead] at h
  | cons u us =>
    have hrest : s.rest = s.current :: u :: us := by rw [rest, hahead]
    exact ⟨[s.current], passes_advance_of_rest hrest (List.cons_ne_nil u us)⟩

variable {α β : Type}

/-- The outcome of a run from `s`: the run has passed some tokens, at least so many as its value asks
for. Only if `stuck` holds may it have no end. -/
inductive Outcome.Onward (stuck : Prop) (least : α → Nat) (s : Stream) : Outcome α → Prop where
  | done {a : α} {ts : List Token} {s' : Stream} (hpass : s.Passes ts s') (hleast : least a ≤ ts.length) :
      Onward stuck least s (.done a s')
  | fault {cause : Fault} {ts : List Token} {s' : Stream} (hpass : s.Passes ts s') :
      Onward stuck least s (.fault cause s')
  | endless (h : stuck) : Onward stuck least s .endless

/-- A run from behind some tokens is a run from before them. -/
theorem Outcome.Onward.of_passes {stuck : Prop} {least : α → Nat} {s s' : Stream} {ts : List Token}
    {o : Outcome α} (hpass : s.Passes ts s') (h : o.Onward stuck least s') : o.Onward stuck least s := by
  cases h with
  | done hpass' hleast =>
    refine .done (hpass.trans hpass') ?_
    rw [List.length_append]
    omega
  | fault hpass' => exact .fault (hpass.trans hpass')
  | endless h => exact .endless h

namespace Parse

/-- From closed streams the outcomes go on from where the run started. -/
def Onward (stuck : Prop) (least : α → Nat) (p : Parse α) : Prop :=
  ∀ s, s.Closed → (p s).Onward stuck least s

/-- The runs keep to the stream. -/
abbrev Keeps (stuck : Prop) (p : Parse α) : Prop := p.Onward stuck fun _ => 0

/-- The runs keep to the stream, and pass a token if they come to a value. -/
abbrev Moves (stuck : Prop) (p : Parse α) : Prop := p.Onward stuck fun _ => 1

namespace Onward

variable {stuck : Prop} {least : α → Nat} {least' : β → Nat} {p : Parse α} {f : α → Parse β}

theorem mono {fewer : α → Nat} (hle : ∀ a, fewer a ≤ least a) (h : p.Onward stuck least) :
    p.Onward stuck fewer := by
  intro s hs
  have hrun := h s hs
  generalize p s = o at hrun ⊢
  cases hrun with
  | done hpass hleast => exact .done hpass (Nat.le_trans (hle _) hleast)
  | fault hpass => exact .fault hpass
  | endless h => exact .endless h

theorem keeps (h : p.Onward stuck least) : p.Keeps stuck := h.mono fun _ => Nat.zero_le _

/-- A step that keeps to the stream, and what is done after it. -/
theorem bind (h : p.Keeps stuck) (h' : ∀ a, (f a).Onward stuck least') :
    (p >>= f).Onward stuck least' := by
  intro s hs
  have hrun := h s hs
  generalize hp : p s = o at hrun
  cases hrun with
  | done hpass =>
    rw [bind_done hp]
    exact (h' _ _ (hpass.closed hs)).of_passes hpass
  | fault hpass =>
    rw [bind_fault hp]
    exact .fault hpass
  | endless h =>
    rw [bind_endless hp]
    exact .endless h

/-- A step that passes a token, and what is done after it. -/
theorem bind_moves (h : p.Moves stuck) (h' : ∀ a, (f a).Keeps stuck) : (p >>= f).Moves stuck := by
  intro s hs
  have hrun := h s hs
  generalize hp : p s = o at hrun
  cases hrun with
  | @done a ts s₁ hpass hts =>
    rw [bind_done hp]
    have hrun' := h' a s₁ (hpass.closed hs)
    generalize f a s₁ = o' at hrun'
    cases hrun' with
    | done hpass' =>
      refine .done (hpass.trans hpass') ?_
      rw [List.length_append]
      omega
    | fault hpass' => exact .fault (hpass.trans hpass')
    | endless h => exact .endless h
  | fault hpass =>
    rw [bind_fault hp]
    exact .fault hpass
  | endless h =>
    rw [bind_endless hp]
    exact .endless h

theorem pure (a : α) (h : least a = 0) : (Pure.pure a : Parse α).Onward stuck least :=
  fun s _ => .done (.refl s) (Nat.le_of_eq h)

theorem fail (cause : Fault) : (Parse.fail cause : Parse α).Onward stuck least :=
  fun s _ => .fault (.refl s)

theorem never (h : stuck) : (Parse.never : Parse α).Onward stuck least := fun _ _ => .endless h

theorem current : Keeps stuck current := fun s _ => .done (.refl s) (Nat.le_refl 0)

theorem kind : Keeps stuck kind := fun s _ => .done (.refl s) (Nat.le_refl 0)

theorem record (event : Event) : Keeps stuck (record event) := by
  intro s _
  have hpass : s.Passes [] (s.record event) := ⟨rfl, rfl⟩
  exact .done hpass (Nat.le_refl 0)

theorem advance : Keeps stuck advance := by
  intro s _
  obtain ⟨ts, hpass⟩ := s.exists_passes_advance
  exact .done hpass (Nat.zero_le _)

theorem expectOr (k : Kind) (cause : Token → Fault) : Keeps stuck (expectOr k cause) := by
  intro s hs
  unfold Parse.expectOr
  split
  · exact advance s hs
  · exact .fault (.refl s)

/-- Only the last token is not passed for good, and that is an end token. -/
theorem expectOr_of_ne {k : Kind} (hk : k ≠ .endOfInput) (cause : Token → Fault) :
    Moves stuck (Parse.expectOr k cause) := by
  intro s hs
  unfold Parse.expectOr
  split
  · next heq => exact .done (s.passes_advance hs (heq ▸ hk)) (Nat.le_refl 1)
  · exact .fault (.refl s)

/-- A loop keeps to the stream and has an end if each round that asks for another passes a token. -/
theorem loop {round : α → Parse (Round α)} (h : ∀ a, (round a).Onward stuck Round.least) (a : α) :
    (loop round a).Keeps stuck := by
  intro s hs
  generalize hn : s.remaining = n
  induction n using Nat.strongRecOn generalizing a s with
  | ind n ih =>
    have hrun := h a s hs
    rw [Parse.loop]
    generalize round a s = o at hrun
    cases hrun with
    | @done r ts s₁ hpass hleast =>
      rcases r with b | b
      · have hlt : s₁.remaining < s.remaining := hpass.remaining_lt (List.length_pos_iff.1 hleast)
        simp only [hlt, if_true]
        exact (ih _ (hn ▸ hlt) b _ (hpass.closed hs) rfl).of_passes hpass
      · exact .done hpass (Nat.zero_le _)
    | fault hpass => exact .fault hpass
    | endless h => exact .endless h

/-- What a literal comes to has passed a token, even at the last one: an end token denotes no expression. -/
theorem literal : Moves stuck literal := by
  intro s hs
  rw [Parse.literal, advance_bind]
  cases he : s.current.toExpr with
  | ok e =>
    have hk : s.current.kind ≠ .endOfInput := by
      intro hk
      simp [Token.toExpr, hk] at he
    exact .done (s.passes_advance hs hk) (Nat.le_refl 1)
  | error cause =>
    obtain ⟨ts, hpass⟩ := s.exists_passes_advance
    exact .fault hpass

end Onward

variable {stuck : Prop}

/-- To go on is kept by whatever parsers are put together from. -/
theorem onward_congruence (stuck : Prop) : Congruence (Diagonal fun least p => p.Onward stuck least) where
  mono hle h := ⟨h.1, h.2.mono hle⟩
  pure h := ⟨rfl, .pure _ h⟩
  fail _ := ⟨rfl, .fail _⟩
  bind h h' := ⟨by rw [h.1, funext fun a => (h' a).1], h.2.bind fun a => (h' a).2⟩
  bind_moves h h' := ⟨by rw [h.1, funext fun a => (h' a).1], h.2.bind_moves fun a => (h' a).2⟩
  current := ⟨rfl, .current⟩
  advance := ⟨rfl, .advance⟩
  record event := ⟨rfl, .record event⟩
  expectOr hk _ := ⟨rfl, .expectOr_of_ne hk _⟩
  literal := ⟨rfl, .literal⟩
  loop h a := ⟨by rw [funext fun a => (h a).1], .loop (fun a => (h a).2) a⟩

theorem onward_covers {σ τ : Type} (g : Grammar σ τ) :
    Covers (Diagonal fun least p => p.Onward stuck least) g :=
  fun _ _ _ _ _ _ _ _ => ⟨rfl, .fail _⟩

theorem onward_coversTables {t : Tables} (ht : ∀ k, t.statements k = some .any → stuck) :
    CoversTables (Diagonal fun least p => p.Onward stuck least) t :=
  ⟨onward_covers _, onward_covers _, fun {k} h => ⟨rfl, .never (ht k h)⟩⟩

section Climb

variable {σ τ : Type} {g : Grammar σ τ} {start : σ → Parse α} {more : τ → Power → α → Parse α}

theorem extend_keeps (phrase : Phrase) (bound : Power) (left : α)
    (h : ∀ form power left, (more form power left).Moves stuck) :
    (extend phrase g more bound left).Keeps stuck :=
  ((onward_congruence stuck).extend phrase (onward_covers g) bound left fun form power left =>
    ⟨rfl, h form power left⟩).2

theorem climb_moves (phrase : Phrase) (bound : Power) (h : ∀ form, (start form).Moves stuck)
    (h' : ∀ form power left, (more form power left).Moves stuck) :
    (climb phrase g start more bound).Moves stuck :=
  ((onward_congruence stuck).climb phrase (onward_covers g) bound (fun form => ⟨rfl, h form⟩)
    fun form power left => ⟨rfl, h' form power left⟩).2

end Climb

section Forms

variable {type : Power → Parse TypeRef} {expr : Power → Parse Expr}

theorem startForm_moves (h : ∀ b, (expr b).Moves stuck) (form : StartForm) :
    (startForm expr form).Moves stuck :=
  ((onward_congruence stuck).startForm (fun b => ⟨rfl, h b⟩) form).2

theorem continueForm_moves (h : ∀ b, (expr b).Moves stuck) (form : ContinueForm) (power : Power)
    (left : Expr) : (continueForm expr form power left).Moves stuck :=
  ((onward_congruence stuck).continueForm (fun b => ⟨rfl, h b⟩) form power left).2

theorem typeForm_moves (htype : ∀ b, (type b).Moves stuck) (hexpr : ∀ b, (expr b).Moves stuck)
    (form : TypeForm) : (typeForm type expr form).Moves stuck :=
  ((onward_congruence stuck).typeForm (fun b => ⟨rfl, htype b⟩) (fun b => ⟨rfl, hexpr b⟩) form).2

end Forms

theorem exprWithin_moves (g : ExprGrammar) (n : Nat) (bound : Power) : (exprWithin g n bound).Moves stuck :=
  ((onward_congruence stuck).exprWithin (onward_covers g) (.refl n) bound).2

theorem typeWithin_moves (t : Tables) (n : Nat) (bound : Power) : (typeWithin t n bound).Moves stuck :=
  ((onward_congruence stuck).typeWithin (onward_covers _) (onward_covers _) (.refl n) bound).2

/-- A statement that is read takes up a token. Only an entry for statements that leads back to the
tables can keep its reading from having an end. -/
theorem stmtWithin_moves {t : Tables} (ht : ∀ k, t.statements k = some .any → stuck) (n : Nat) :
    (stmtWithin t n).Moves stuck :=
  ((onward_congruence stuck).stmtWithin (onward_coversTables ht) (.refl n)).2

theorem readExpr_moves (g : ExprGrammar) (bound : Power) : (readExpr g bound).Moves stuck := by
  intro s hs
  rw [readExpr_eq]
  exact exprWithin_moves g s.room bound s hs

theorem readType_moves (t : Tables) (bound : Power) : (readType t bound).Moves stuck := by
  intro s hs
  rw [readType_eq]
  exact typeWithin_moves t s.room bound s hs

theorem readStmt_moves {t : Tables} (ht : ∀ k, t.statements k = some .any → stuck) :
    (readStmt t).Moves stuck := by
  intro s hs
  rw [readStmt_eq]
  exact stmtWithin_moves ht s.room s hs

theorem readForm_moves {t : Tables} (ht : ∀ k, t.statements k = some .any → stuck) (form : StmtForm) :
    (readForm t form).Moves stuck := by
  intro s hs
  rw [readForm_eq]
  exact ((onward_congruence stuck).formWithin (onward_coversTables ht) (.refl _) form).2 s hs

/-! ## Runs come to an end -/

/-- The run ends: with a value behind where it started, or with a fault. -/
def Settles (p : Parse α) (s : Stream) : Prop :=
  (∃ a s', p s = .done a s' ∧ s.index < s'.index) ∨ ∃ cause s', p s = .fault cause s'

theorem Onward.settles {p : Parse α} {s : Stream} (h : p.Moves False) (hs : s.Closed) :
    p.Settles s := by
  have hrun := h s hs
  generalize hp : p s = o at hrun
  cases hrun with
  | done hpass hleast => exact .inl ⟨_, _, hp, by rw [hpass.index]; omega⟩
  | fault hpass => exact .inr ⟨_, _, hp⟩
  | endless h => exact h.elim

theorem Onward.ne_endless {p : Parse α} {s : Stream} (h : p.Keeps False) (hs : s.Closed) :
    p s ≠ .endless := by
  have hrun := h s hs
  intro hp
  rw [hp] at hrun
  cases hrun with
  | endless h => exact h

/-- Whatever the tables are, if no entry for statements leads back to them, then from every place of a
closed stream and at every depth the reading of an expression, a type or a statement comes to an end, and
to a value only behind a token. So each loop on the way comes to an end as well. -/
theorem reading_settles {t : Tables} (ht : ∀ k, t.statements k ≠ some .any) {s : Stream}
    (hs : s.Closed) (b : Power) :
    (readExpr t.expressions b).Settles s ∧
      (readType t b).Settles s ∧
      (readStmt t).Settles s ∧
      (∀ left, extend .expression t.expressions (continueForm (readExpr t.expressions)) b left s ≠
        .endless) ∧
      (∀ left : TypeRef, extend .typeRef t.types (fun form _ _ => nomatch form) b left s ≠ .endless) ∧
      (∀ closing, exprList (readExpr t.expressions) closing s ≠ .endless) ∧
      objectType (readType t) s ≠ .endless ∧
      block (readStmt t) s ≠ .endless ∧
      program t s ≠ .endless := by
  have hR := onward_congruence False
  have hexpr : ∀ b, (readExpr t.expressions b).Moves False := readExpr_moves t.expressions
  have htype : ∀ b, (readType t b).Moves False := readType_moves t
  have hstmt : (readStmt t).Moves False := readStmt_moves ht
  refine ⟨(hexpr b).settles hs, (htype b).settles hs, hstmt.settles hs, fun left => ?_, fun left => ?_,
    fun closing => ?_, ?_, ?_, ?_⟩
  · exact (extend_keeps .expression b left (continueForm_moves hexpr)).ne_endless hs
  · exact (extend_keeps .typeRef b left fun form => nomatch form).ne_endless hs
  · exact (hR.exprList (fun b => ⟨rfl, hexpr b⟩) closing).2.keeps.ne_endless hs
  · exact (hR.objectType fun b => ⟨rfl, htype b⟩).2.keeps.ne_endless hs
  · exact (hR.block ⟨rfl, hstmt⟩).2.keeps.ne_endless hs
  · exact (hR.untilEnd ⟨rfl, hstmt⟩).2.ne_endless hs

/-- Even where the end token starts an operator and its operand, reading from the last token ends, with all
levels but one open. -/
theorem reading_settles_at_end :
    (readExpr (ExprGrammar.standard.addStart .endOfInput .unary) .lowest).Settles
      ⟨0, .endOfInput, [], 0, 255, [], rfl⟩ := by
  have ht (k : Kind) : (Tables.standard.addStart .endOfInput .unary).statements k ≠ some .any := by
    show Tables.standardStatements k ≠ some .any
    unfold Tables.standardStatements
    split <;> nofun
  have hs : Stream.Closed ⟨0, .endOfInput, [], 0, 255, [], rfl⟩ := rfl
  exact (reading_settles ht hs .lowest).1

end Parse

end ScriptFront
