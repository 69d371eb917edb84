import ScriptFront.Proofs.Congruence

/-!
# The levels of nesting are balanced

A reader opens a level of nesting before it reads and closes it afterwards, and in between it uses other readers
that do the same. So it leaves as many levels open as it found, be its end a value or a fault, and what it
comes to depends on the levels only by the room they leave: it is what the reader with that room given in
advance comes to, which does not look at the levels at all.

Both are said by `Parse.Balanced d p q`: with `d` levels open `p` does what `q` does with any number of them
open, and then `d` are open again. The single steps and sequence and repetition keep this, a level opened and
closed around `p` takes it from `d + 1` to `d` (`Parse.Balanced.nested`), and so the readers are balanced
(`Parse.readExpr_balanced`, `Parse.readType_balanced`, `Parse.readStmt_balanced`). It follows that a reader
always has the room to use itself in the level it opened (`Parse.readExpr_eq_nested`,
`Parse.readType_eq_nested`, `Parse.readStmt_eq_dispatch`).
-/

namespace ScriptFront

variable {α β : Type}

/-- The stream with so many levels of nesting open. -/
def Stream.atDepth (s : Stream) (d : Nat) : Stream := { s with depth := d }

/-- The outcome with so many levels of nesting open in its stream. -/
def Outcome.atDepth (d : Nat) : Outcome α → Outcome α
  | done a s => .done a (s.atDepth d)
  | fault cause s => .fault cause (s.atDepth d)
  | endless => .endless

theorem Stream.advance_atDepth (s : Stream) (d : Nat) : (s.atDepth d).advance = s.advance.atDepth d := by
  unfold advance
  split
  · next h =>
    have h : s.ahead = [] := h
    split
    · rfl
    · next h' => simp [h] at h'
  · next t ts h =>
    have h : s.ahead = t :: ts := h
    split
    · next h' => simp [h] at h'
    · next t' ts' h' =>
      rw [h] at h'
      injection h' with h₁ h₂
      subst h₁ h₂
      rfl

theorem Outcome.atDepth_atDepth (d e : Nat) (o : Outcome α) : (o.atDepth e).atDepth d = o.atDepth d := by
  cases o <;> rfl

namespace Parse

/-- From a stream with `d` levels open `p` comes to what `q` comes to from the same stream with any number
of levels open, and it leaves `d` levels open. -/
def Balanced (d : Nat) (p q : Parse α) : Prop :=
  ∀ (s : Stream) (e : Nat), p (s.atDepth d) = (q (s.atDepth e)).atDepth d

namespace Balanced

variable {d : Nat} {p q : Parse α} {s : Stream}

theorem pure (a : α) : Balanced d (Pure.pure a) (Pure.pure a) := fun _ _ => rfl

theorem fail (cause : Fault) : Balanced d (fail cause : Parse α) (fail cause) := fun _ _ => rfl

theorem never : Balanced d (never : Parse α) never := fun _ _ => rfl

theorem bind {f g : α → Parse β} (h : Balanced d p q) (h' : ∀ a, Balanced d (f a) (g a)) :
    Balanced d (p >>= f) (q >>= g) := by
  intro s e
  have hp := h s e
  cases hq : q (s.atDepth e) with
  | done a s₁ =>
    rw [hq] at hp
    rw [bind_done hp, bind_done hq]
    exact h' a s₁ s₁.depth
  | fault cause s₁ =>
    rw [hq] at hp
    rw [bind_fault hp, bind_fault hq]
    rfl
  | endless =>
    rw [hq] at hp
    rw [bind_endless hp, bind_endless hq]
    rfl

theorem advance : Balanced d advance advance := by
  intro s e
  simp only [Parse.advance, Stream.advance_atDepth]
  rfl

theorem expectOr (k : Kind) (cause : Token → Fault) :
    Balanced d (expectOr k cause) (expectOr k cause) := by
  intro s e
  simp only [Parse.expectOr, Stream.advance_atDepth]
  show (if s.current.kind = k then _ else _) = Outcome.atDepth d (if s.current.kind = k then _ else _)
  split <;> rfl

theorem loop {round round' : α → Parse (Round α)} (h : ∀ a, Balanced d (round a) (round' a)) (a : α) :
    Balanced d (loop round a) (loop round' a) := by
  intro s e
  generalize hn : s.remaining = n
  induction n using Nat.strongRecOn generalizing a s e with
  | ind n ih =>
    rw [Parse.loop, Parse.loop, h a s e]
    cases round' a (s.atDepth e) with
    | done r s₁ =>
      rcases r with b | b
      · show (if s₁.remaining < s.remaining then _ else _) =
          Outcome.atDepth d (if s₁.remaining < s.remaining then _ else _)
        split
        · next hlt => exact ih _ (hn ▸ hlt) b s₁ s₁.depth rfl
        · rfl
      · rfl
    | fault cause s₁ => rfl
    | endless => rfl

/-- What is balanced in a level of nesting is balanced around it, the level being closed after a value and
after a fault. -/
theorem nested (hd : d < maxNesting) (h : Balanced (d + 1) p q) : Balanced d (nested p) q := by
  intro s e
  have henter : enter (s.atDepth d) = .done () (s.atDepth (d + 1)) := if_pos hd
  rw [Parse.nested, bind_done henter, leaving, h s e]
  cases q (s.atDepth e) <;> rfl

/-- With as many levels open as there may be, none is opened. -/
theorem nested_of_le (hd : maxNesting ≤ d) (p : Parse α) :
    Balanced d (Parse.nested p) (Parse.fail (.tooDeep maxNesting)) := by
  intro s e
  have henter : enter (s.atDepth d) = .fault (.tooDeep maxNesting) (s.atDepth d) :=
    if_neg (Nat.not_lt.2 hd)
  rw [Parse.nested, bind_fault henter]
  rfl

/-- In a level of nesting a reader may use itself. -/
theorem inside (hd : d < maxNesting) (h : Balanced (d + 1) p q) (s : Stream) :
    Balanced (d + 1) (inside (s.atDepth d) fun s' _ => p s') q := by
  intro s' e
  have hroom : (s'.atDepth (d + 1)).room < (s.atDepth d).room := by
    show maxNesting - (d + 1) < maxNesting - d
    omega
  rw [Parse.inside, dif_pos hroom]
  exact h s' e

/-- What is balanced leaves as many levels open as it found. -/
theorem apply_atDepth (h : Balanced s.depth p q) : (p s).atDepth s.depth = p s := by
  have hp : p s = (q s).atDepth s.depth := h s s.depth
  rw [hp, Outcome.atDepth_atDepth]

/-- What is balanced with the same comes to the same. -/
theorem apply_congr {p' : Parse α} (h : Balanced s.depth p q) (h' : Balanced s.depth p' q) : p s = p' s :=
  (h s s.depth).trans (h' s s.depth).symm

theorem apply_eq (h : Balanced s.depth p q) (hq : Balanced s.depth q q) : p s = q s := by
  have hp : p s = (q s).atDepth s.depth := h s s.depth
  rw [hp, hq.apply_atDepth]

/-- As many levels are open where a value is come to. -/
theorem depth_of_done (h : Balanced s.depth p q) {a : α} {s' : Stream} (hp : p s = .done a s') :
    s'.depth = s.depth := by
  have hsame := h.apply_atDepth
  rw [hp] at hsame
  injection hsame with _ hs'
  exact (congrArg Stream.depth hs').symm

/-- As many levels are open where a fault is met. -/
theorem depth_of_fault (h : Balanced s.depth p q) {cause : Fault} {s' : Stream}
    (hp : p s = .fault cause s') : s'.depth = s.depth := by
  have hsame := h.apply_atDepth
  rw [hp] at hsame
  injection hsame with _ hs'
  exact (congrArg Stream.depth hs').symm

end Balanced

/-- To be balanced is kept by whatever parsers are put together from. -/
theorem balanced_congruence (d : Nat) : Congruence fun _ p q => Balanced d p q where
  mono _ h := h
  pure _ := .pure _
  fail _ := .fail _
  bind h h' := h.bind h'
  bind_moves h h' := h.bind h'
  current _ _ := rfl
  advance := .advance
  record _ _ _ := rfl
  expectOr _ _ := .expectOr _ _
  literal := by
    refine Balanced.advance.bind fun token => ?_
    cases token.toExpr with
    | ok e => exact .pure e
    | error cause => exact .fail cause
  loop h a := .loop h a

theorem balanced_covers (d : Nat) {σ τ : Type} (g : Grammar σ τ) :
    Covers (fun _ p q => Balanced d p q) g :=
  fun _ _ _ _ _ _ _ _ => .fail _

theorem balanced_coversTables (d : Nat) (t : Tables) :
    CoversTables (fun _ p q => Balanced d p q) t :=
  ⟨balanced_covers d _, balanced_covers d _, fun _ => .never⟩

/-! ## The readers -/

section Forms

variable {d n : Nat} {expr : Power → Parse Expr} {type : Power → Parse TypeRef} {stmt : Parse Stmt}

/-- An expression is balanced around its operands. -/
theorem nested_exprForms_balanced {g : ExprGrammar} (hn : maxNesting - d = n + 1)
    (h : ∀ b, Balanced (d + 1) (expr b) (exprWithin g n b)) (bound : Power) :
    Balanced d (nested (climb .expression g (startForm expr) (continueForm expr) bound))
      (exprWithin g (n + 1) bound) := by
  have hR := balanced_congruence (d + 1)
  refine .nested (Nat.lt_of_sub_eq_succ hn) ?_
  exact hR.climb .expression (balanced_covers _ g) bound (hR.startForm h) (hR.continueForm h)

/-- A type is balanced around its parts. -/
theorem nested_typeForms_balanced {t : Tables} (hn : maxNesting - d = n + 1)
    (h : ∀ b, Balanced (d + 1) (type b) (typeWithin t n b))
    (hexpr : ∀ b, Balanced (d + 1) (expr b) (exprWithin t.expressions n b)) (bound : Power) :
    Balanced d (nested (climb .typeRef t.types (typeForm type expr) (fun form _ _ => nomatch form) bound))
      (typeWithin t (n + 1) bound) := by
  have hR := balanced_congruence (d + 1)
  refine .nested (Nat.lt_of_sub_eq_succ hn) ?_
  exact hR.climb .typeRef (balanced_covers _ t.types) bound (hR.typeForm h hexpr) fun form => nomatch form

/-- A block is balanced around its statements. -/
theorem nested_block_balanced {t : Tables} (hn : maxNesting - d = n + 1)
    (h : Balanced (d + 1) stmt (stmtWithin t n)) : Balanced d (nested (block stmt)) (blockWithin t (n + 1)) :=
  .nested (Nat.lt_of_sub_eq_succ hn) ((balanced_congruence _).block h)

end Forms

theorem readExpr_balanced (g : ExprGrammar) (d : Nat) (bound : Power) :
    Balanced d (readExpr g bound) (exprWithin g (maxNesting - d) bound) := by
  intro s e
  induction hn : maxNesting - d generalizing d bound s e with
  | zero =>
    rw [readExpr]
    exact Balanced.nested_of_le (Nat.le_of_sub_eq_zero hn) _ s e
  | succ n ih =>
    have hn' : maxNesting - (d + 1) = n := by omega
    rw [readExpr]
    refine nested_exprForms_balanced hn (fun b => ?_) bound s e
    exact .inside (Nat.lt_of_sub_eq_succ hn) (fun s e => ih (d + 1) b s e hn') s

theorem readType_balanced (t : Tables) (d : Nat) (bound : Power) :
    Balanced d (readType t bound) (typeWithin t (maxNesting - d) bound) := by
  intro s e
  induction hn : maxNesting - d generalizing d bound s e with
  | zero =>
    rw [readType]
    exact Balanced.nested_of_le (Nat.le_of_sub_eq_zero hn) _ s e
  | succ n ih =>
    have hn' : maxNesting - (d + 1) = n := by omega
    rw [readType]
    refine nested_typeForms_balanced hn (fun b => ?_) (fun b => ?_) bound s e
    · exact .inside (Nat.lt_of_sub_eq_succ hn) (fun s e => ih (d + 1) b s e hn') s
    · exact hn' ▸ readExpr_balanced t.expressions (d + 1) b

/-- A statement is balanced if its blocks are. -/
theorem dispatch_balanced {t : Tables} {d : Nat} {block : Parse Stmt}
    (h : Balanced d block (blockWithin t (maxNesting - d))) :
    Balanced d (dispatch t (readType t) (readExpr t.expressions) block) (stmtWithin t (maxNesting - d)) := by
  rw [stmtWithin_eq]
  exact (balanced_congruence d).dispatch (balanced_coversTables d t) (readType_balanced t d)
    (readExpr_balanced _ d) h

theorem readStmt_balanced (t : Tables) (d : Nat) :
    Balanced d (readStmt t) (stmtWithin t (maxNesting - d)) := by
  intro s e
  induction hn : maxNesting - d generalizing d s e with
  | zero =>
    rw [readStmt, ← hn]
    refine dispatch_balanced ?_ s e
    rw [hn]
    exact .nested_of_le (Nat.le_of_sub_eq_zero hn) _
  | succ n ih =>
    have hn' : maxNesting - (d + 1) = n := by omega
    rw [readStmt, ← hn]
    refine dispatch_balanced ?_ s e
    rw [hn]
    refine nested_block_balanced hn ?_
    exact .inside (Nat.lt_of_sub_eq_succ hn) (fun s e => ih (d + 1) s e hn') s

theorem readBlock_balanced (t : Tables) (d : Nat) :
    Balanced d (readBlock t) (blockWithin t (maxNesting - d)) := by
  rw [readBlock]
  cases hn : maxNesting - d with
  | zero => exact .nested_of_le (Nat.le_of_sub_eq_zero hn) _
  | succ n =>
    have hn' : maxNesting - (d + 1) = n := by omega
    exact nested_block_balanced hn (hn' ▸ readStmt_balanced t (d + 1))

theorem readForm_balanced (t : Tables) (d : Nat) (form : StmtForm) :
    Balanced d (readForm t form) (formWithin t (maxNesting - d) form) := by
  have hR := balanced_congruence d
  cases form with
  | any => exact readStmt_balanced t d
  | declaration => exact hR.declaration (readType_balanced t d) (readExpr_balanced _ d)
  | object => exact hR.objectType (readType_balanced t d)
  | block => exact readBlock_balanced t d

/-! ## Readers that use themselves

There is less room in the level that a reader opens than there was before, and each part leaves the level as it
found it. So the condition of `inside` holds wherever a reader uses itself. -/

/-- An expression is what its forms read in a level of their own, by the same reader. -/
theorem readExpr_eq_nested (g : ExprGrammar) (bound : Power) :
    readExpr g bound =
      nested (climb .expression g (startForm (readExpr g)) (continueForm (readExpr g)) bound) := by
  funext s
  refine (readExpr_balanced g s.depth bound).apply_congr ?_
  cases hn : maxNesting - s.depth with
  | zero => exact .nested_of_le (Nat.le_of_sub_eq_zero hn) _
  | succ n =>
    have hn' : maxNesting - (s.depth + 1) = n := by omega
    exact nested_exprForms_balanced hn (fun b => hn' ▸ readExpr_balanced g _ b) bound

/-- A type is what its forms read in a level of their own, by the same reader. -/
theorem readType_eq_nested (t : Tables) (bound : Power) :
    readType t bound =
      nested (climb .typeRef t.types (typeForm (readType t) (readExpr t.expressions))
        (fun form _ _ => nomatch form) bound) := by
  funext s
  refine (readType_balanced t s.depth bound).apply_congr ?_
  cases hn : maxNesting - s.depth with
  | zero => exact .nested_of_le (Nat.le_of_sub_eq_zero hn) _
  | succ n =>
    have hn' : maxNesting - (s.depth + 1) = n := by omega
    exact nested_typeForms_balanced hn (fun b => hn' ▸ readType_balanced t _ b)
      (fun b => hn' ▸ readExpr_balanced t.expressions _ b) bound

/-- A statement is one of its forms, a block among them being read by the same reader. -/
theorem readStmt_eq_dispatch (t : Tables) :
    readStmt t = dispatch t (readType t) (readExpr t.expressions) (readBlock t) := by
  funext s
  exact (readStmt_balanced t s.depth).apply_congr (dispatch_balanced (readBlock_balanced t s.depth))

/-! ## The room of a stream -/

/-- What is read depends on the levels that are open only by the room they leave. -/
theorem readExpr_eq (g : ExprGrammar) (bound : Power) (s : Stream) :
    readExpr g bound s = exprWithin g s.room bound s :=
  (readExpr_balanced g s.depth bound).apply_eq
    ((balanced_congruence _).exprWithin (balanced_covers _ g) (.refl _) bound)

theorem readType_eq (t : Tables) (bound : Power) (s : Stream) :
    readType t bound s = typeWithin t s.room bound s :=
  (readType_balanced t s.depth bound).apply_eq
    ((balanced_congruence _).typeWithin (balanced_covers _ _) (balanced_covers _ _) (.refl _) bound)

theorem readStmt_eq (t : Tables) (s : Stream) : readStmt t s = stmtWithin t s.room s :=
  (readStmt_balanced t s.depth).apply_eq
    ((balanced_congruence _).stmtWithin (balanced_coversTables _ t) (.refl _))

theorem readForm_eq (t : Tables) (form : StmtForm) (s : Stream) :
    readForm t form s = formWithin t s.room form s :=
  (readForm_balanced t s.depth form).apply_eq
    ((balanced_congruence _).formWithin (balanced_coversTables _ t) (.refl _) form)

/-- A program is read with the room that the stream leaves to each of its statements. -/
theorem program_eq (t : Tables) (s : Stream) : program t s = untilEnd (stmtWithin t s.room) s := by
  have hR := balanced_congruence s.depth
  exact (hR.untilEnd (readStmt_balanced t s.depth)).apply_eq
    (hR.untilEnd (hR.stmtWithin (balanced_coversTables _ t) (.refl _)))

end Parse

end ScriptFront
