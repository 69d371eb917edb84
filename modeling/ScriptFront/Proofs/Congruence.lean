import ScriptFront.Proofs.Room
import ScriptFront.Proofs.Sequence

/-!
# What the ways of putting parsers together keep

Several facts about the readers have one shape: a relation between two runs, or a property of one, that holds of
the single steps and is kept by sequence and repetition. `Parse.Congruence` says what such a relation has to
keep; the forms are then gone through once, and the relation holds of all readers over the tables
(`Parse.Congruence.exprWithin`, `Parse.Congruence.typeWithin`, `Parse.Congruence.stmtWithin`).

A loop may need to know that a round which asks for another has passed a token. So the relation is graded
by the number of tokens that a run has to pass before it comes to a value; relations that have no use for the
grade ignore it.
-/

namespace ScriptFront

/-- The faults that any form may end with. The others depend on the source text, on the tables or on the
numbers among the tokens. -/
def Fault.Plain : Fault → Prop
  | unrecognised _ | unterminated | cannotContinue _ _ _ | unreadableNumber _ => False
  | _ => True

theorem Expr.plain_of_statedSize {e : Expr} {cause : Fault} (h : e.statedSize = .error cause) :
    cause.Plain := by
  unfold statedSize at h
  split at h
  · cases h
    trivial
  · split at h
    · cases h
    · cases h
      trivial

theorem Binding.plain_of_ofParts {name : String} {constant : Bool} {type : Option TypeRef}
    {value : Option Expr} {cause : Fault} (h : ofParts name constant type value = .error cause) :
    cause.Plain := by
  cases type <;> cases value <;> cases constant <;> cases h <;> trivial

namespace Parse

/-- A round that asks for another has to pass a token. -/
def Round.least {α : Type} : Round α → Nat
  | .again _ => 1
  | .over _ => 0

/-- A relation between parsers, graded by the tokens that a value takes at least, which the single steps are
in and which sequence and repetition keep. -/
structure Congruence (R : ∀ {α : Type}, (α → Nat) → Parse α → Parse α → Prop) : Prop where
  mono {α : Type} {least fewer : α → Nat} {p q : Parse α} (hle : ∀ a, fewer a ≤ least a)
    (h : R least p q) : R fewer p q
  pure {α : Type} {least : α → Nat} {a : α} (h : least a = 0) : R least (pure a) (pure a)
  fail {α : Type} {least : α → Nat} {cause : Fault} (h : cause.Plain) :
    R least (fail cause) (fail cause)
  bind {α β : Type} {least : β → Nat} {p q : Parse α} {f g : α → Parse β} (h : R (fun _ => 0) p q)
    (h' : ∀ a, R least (f a) (g a)) : R least (p >>= f) (q >>= g)
  bind_moves {α β : Type} {p q : Parse α} {f g : α → Parse β} (h : R (fun _ => 1) p q)
    (h' : ∀ a, R (fun _ => 0) (f a) (g a)) : R (fun _ => 1) (p >>= f) (q >>= g)
  current : R (fun _ => 0) current current
  advance : R (fun _ => 0) advance advance
  record (event : Event) : R (fun _ => 0) (record event) (record event)
  expectOr {k : Kind} {cause : Token → Fault} (hk : k ≠ .endOfInput) (h : ∀ t, (cause t).Plain) :
    R (fun _ => 1) (expectOr k cause) (expectOr k cause)
  literal : R (fun _ => 1) literal literal
  loop {α : Type} {round round' : α → Parse (Round α)}
    (h : ∀ a, R Round.least (round a) (round' a)) (a : α) :
    R (fun _ => 0) (loop round a) (loop round' a)

/-- A property of single parsers as a relation: what has the property is related to itself. -/
def Diagonal (P : ∀ {α : Type}, (α → Nat) → Parse α → Prop) {α : Type} (least : α → Nat)
    (p q : Parse α) : Prop :=
  p = q ∧ P least p

variable {α σ τ : Type} {R : ∀ {α : Type}, (α → Nat) → Parse α → Parse α → Prop}

/-- Where a token binds and yet continues nothing, the fault is in the relation. -/
def Covers (R : ∀ {α : Type}, (α → Nat) → Parse α → Parse α → Prop) (g : Grammar σ τ) : Prop :=
  ∀ ⦃α : Type⦄ (least : α → Nat) (phrase : Phrase) (k : Kind) (lexeme : String) (bound : Power),
    ¬ g.power k ≤ bound → g.continues k = none →
      R least (fail (.cannotContinue phrase k lexeme)) (fail (.cannotContinue phrase k lexeme))

/-- What the tables lead to beyond the forms is in the relation. -/
structure CoversTables (R : ∀ {α : Type}, (α → Nat) → Parse α → Parse α → Prop) (t : Tables) : Prop where
  expressions : Covers R t.expressions
  types : Covers R t.types
  never {k : Kind} (h : t.statements k = some .any) : R (fun _ : Stmt => 1) never never

/-- The first room is not larger, and to run out of it is related to whatever is done with more room. -/
structure Rooms (R : ∀ {α : Type}, (α → Nat) → Parse α → Parse α → Prop) (n m : Nat) : Prop where
  le : n ≤ m
  tooDeep (h : n < m) {α : Type} (q : Parse α) : R (fun _ => 1) (fail (.tooDeep maxNesting)) q

theorem Rooms.refl (n : Nat) : Rooms R n n := ⟨Nat.le_refl n, fun h => absurd h (Nat.lt_irrefl n)⟩

theorem Rooms.of_succ {n m : Nat} (h : Rooms R (n + 1) m) : ∃ k, m = k + 1 ∧ Rooms R n k := by
  refine ⟨m - 1, ?_, Nat.le_sub_one_of_lt h.le, fun hlt => h.tooDeep (Nat.add_lt_of_lt_sub hlt)⟩
  have := h.le
  omega

/-- Without room the fault is related to what is done with any room. -/
theorem Rooms.zero {m : Nat} (h : Rooms R 0 m) (hR : Congruence R) {q : Nat → Parse α}
    (hq : q 0 = Parse.fail (.tooDeep maxNesting)) :
    R (fun _ => 1) (Parse.fail (.tooDeep maxNesting)) (q m) := by
  cases m with
  | zero =>
    rw [hq]
    exact hR.fail trivial
  | succ m => exact h.tooDeep (Nat.succ_pos m) _

namespace Congruence

variable (hR : Congruence R)

include hR

theorem kind : R (fun _ => 0) kind kind :=
  hR.bind (f := fun t => Pure.pure t.kind) hR.current fun _ => hR.pure rfl

theorem expect {k : Kind} (hk : k ≠ .endOfInput) : R (fun _ => 1) (expect k) (expect k) :=
  hR.expectOr hk fun _ => trivial

theorem expectFor {k : Kind} (hk : k ≠ .endOfInput) (reason : String) :
    R (fun _ => 1) (expectFor k reason) (expectFor k reason) :=
  hR.expectOr hk fun _ => trivial

theorem keeps {least : α → Nat} {p q : Parse α} (h : R least p q) : R (fun _ => 0) p q :=
  hR.mono (fun _ => Nat.zero_le _) h

/-- After a token has been passed another round may be asked for. -/
theorem round {p q : Parse (Round α)} (h : R (fun _ => 1) p q) : R Round.least p q := by
  refine hR.mono (fun r => ?_) h
  rcases r with _ | _
  · exact Nat.le_refl 1
  · exact Nat.zero_le 1

omit hR in
theorem ite {c : Prop} [Decidable c] {least : α → Nat} {p q p' q' : Parse α} (h : R least p q)
    (h' : R least p' q') : R least (if c then p else p') (if c then q else q') := by
  split
  · exact h
  · exact h'

/-! ## Phrases -/

section Climb

variable {g : Grammar σ τ} {start start' : σ → Parse α} {more more' : τ → Power → α → Parse α}

theorem operand (phrase : Phrase) (h : ∀ form, R (fun _ => 1) (start form) (start' form)) :
    R (fun _ => 1) (operand phrase g start) (operand phrase g start') := by
  refine hR.bind hR.current fun token => ?_
  cases g.starts token.kind with
  | none => exact hR.fail trivial
  | some form => exact h form

theorem extend (phrase : Phrase) (hg : Covers R g) (bound : Power) (left : α)
    (h : ∀ form power left, R (fun _ => 1) (more form power left) (more' form power left)) :
    R (fun _ => 0) (extend phrase g more bound left) (extend phrase g more' bound left) := by
  refine hR.loop (fun left => hR.bind hR.current fun token => ?_) left
  by_cases hpower : g.power token.kind ≤ bound
  · simp only [if_pos hpower]
    exact hR.pure rfl
  · simp only [if_neg hpower]
    cases hform : g.continues token.kind with
    | none => exact hg _ phrase _ _ bound hpower hform
    | some form =>
      refine hR.bind (hR.record _) fun _ => hR.round ?_
      exact hR.bind_moves (h form _ left) fun _ => hR.pure rfl

theorem climb (phrase : Phrase) (hg : Covers R g) (bound : Power)
    (h : ∀ form, R (fun _ => 1) (start form) (start' form))
    (h' : ∀ form power left, R (fun _ => 1) (more form power left) (more' form power left)) :
    R (fun _ => 1) (climb phrase g start more bound) (climb phrase g start' more' bound) :=
  hR.bind_moves (hR.operand phrase h) fun left => hR.extend phrase hg bound left h'

end Climb

section Expressions

variable {expr expr' : Power → Parse Expr}

theorem exprList (h : ∀ b, R (fun _ => 1) (expr b) (expr' b)) (closing : Mark) :
    R (fun _ => 1) (exprList expr closing) (exprList expr' closing) := by
  refine hR.bind (hR.loop (fun items => ?_) []) fun items => ?_
  · refine hR.bind hR.kind fun k => ite (hR.pure rfl) (hR.round ?_)
    refine hR.bind_moves (h .comma) fun item => hR.bind hR.kind fun k => ite ?_ (hR.pure rfl)
    exact hR.bind hR.advance fun _ => hR.pure rfl
  · exact hR.bind_moves (hR.expect (by simp)) fun _ => hR.pure rfl

/-- An operator that is the last token is not passed, but then its operand is not read either. -/
theorem startForm (h : ∀ b, R (fun _ => 1) (expr b) (expr' b)) (form : StartForm) :
    R (fun _ => 1) (startForm expr form) (startForm expr' form) := by
  cases form with
  | literal => exact hR.literal
  | unary => exact hR.bind hR.advance fun _ => hR.bind_moves (h .unary) fun _ => hR.pure rfl
  | parenthesised =>
    refine hR.bind hR.advance fun _ => hR.bind_moves (h .lowest) fun _ => ?_
    exact hR.bind (hR.keeps (hR.expect (by simp))) fun _ => hR.pure rfl
  | group =>
    refine hR.bind_moves (hR.expect (by simp)) fun _ => ?_
    exact hR.bind (hR.keeps (hR.exprList h .closeBracket)) fun _ => hR.pure rfl

theorem continueForm (h : ∀ b, R (fun _ => 1) (expr b) (expr' b)) (form : ContinueForm)
    (power : Power) (left : Expr) :
    R (fun _ => 1) (continueForm expr form power left) (continueForm expr' form power left) := by
  cases form with
  | binary | member => exact hR.bind hR.advance fun _ => hR.bind_moves (h power) fun _ => hR.pure rfl
  | assign => exact hR.bind hR.advance fun _ => hR.bind_moves (h .comma) fun _ => hR.pure rfl
  | construct =>
    cases left with
    | symbol name =>
      refine hR.bind_moves (hR.expect (by simp)) fun _ => ?_
      exact hR.bind (hR.keeps (hR.exprList h .closeParen)) fun _ => hR.pure rfl
    | _ => exact hR.fail trivial

end Expressions

theorem exprWithin {g : ExprGrammar} (hg : Covers R g) {n m : Nat} (h : Rooms R n m) (bound : Power) :
    R (fun _ => 1) (exprWithin g n bound) (exprWithin g m bound) := by
  induction n generalizing m bound with
  | zero => exact h.zero hR (q := fun m => Parse.exprWithin g m bound) rfl
  | succ n ih =>
    obtain ⟨m, rfl, hroom⟩ := h.of_succ
    exact hR.climb .expression hg bound (hR.startForm (ih hroom)) (hR.continueForm (ih hroom))

section Types

variable {type type' : Power → Parse TypeRef} {expr expr' : Power → Parse Expr}

theorem typeForm (htype : ∀ b, R (fun _ => 1) (type b) (type' b))
    (hexpr : ∀ b, R (fun _ => 1) (expr b) (expr' b)) (form : TypeForm) :
    R (fun _ => 1) (typeForm type expr form) (typeForm type' expr' form) := by
  cases form with
  | named => exact hR.bind_moves (hR.expect (by simp)) fun _ => hR.pure rfl
  | group =>
    refine hR.bind_moves ?_ fun parts => ?_
    · refine hR.bind_moves (hR.expect (by simp)) fun _ => ?_
      refine hR.bind (hR.keeps (hR.expect (by simp))) fun _ => ?_
      refine hR.bind (hR.keeps (htype .lowest)) fun _ => ?_
      refine hR.bind (hR.keeps (hR.expect (by simp))) fun _ => ?_
      refine hR.bind (hR.keeps (hexpr .relational)) fun _ => ?_
      exact hR.bind (hR.keeps (hR.expect (by simp))) fun _ => hR.pure rfl
    · cases hsize : parts.2.statedSize with
      | ok size => exact hR.pure rfl
      | error cause => exact hR.fail (Expr.plain_of_statedSize hsize)

end Types

variable {t : Tables} {n m : Nat}

theorem typeWithin (hexpr : Covers R t.expressions) (htype : Covers R t.types) (h : Rooms R n m)
    (bound : Power) : R (fun _ => 1) (typeWithin t n bound) (typeWithin t m bound) := by
  induction n generalizing m bound with
  | zero => exact h.zero hR (q := fun m => Parse.typeWithin t m bound) rfl
  | succ n ih =>
    obtain ⟨m, rfl, hroom⟩ := h.of_succ
    refine hR.climb .typeRef htype bound ?_ fun form => nomatch form
    exact hR.typeForm (ih hroom) (hR.exprWithin hexpr hroom)

/-! ## Statements -/

section Statements

variable {type type' : Power → Parse TypeRef} {expr expr' : Power → Parse Expr} {stmt stmt' : Parse Stmt}

theorem declaration (htype : ∀ b, R (fun _ => 1) (type b) (type' b))
    (hexpr : ∀ b, R (fun _ => 1) (expr b) (expr' b)) :
    R (fun _ => 1) (declaration type expr) (declaration type' expr') := by
  have hdeclaredType : R (fun _ => 0) (declaredType type) (declaredType type') := by
    refine hR.bind hR.kind fun k => ite ?_ (hR.pure rfl)
    exact hR.bind hR.advance fun _ => hR.bind (hR.keeps (htype .lowest)) fun _ => hR.pure rfl
  have hdeclaredValue : R (fun _ => 0) (declaredValue expr) (declaredValue expr') := by
    refine hR.bind hR.kind fun k => ite (hR.pure rfl) ?_
    refine hR.bind (hR.keeps (hR.expect (by simp))) fun _ => ?_
    exact hR.bind (hR.keeps (hexpr .assignment)) fun _ => hR.pure rfl
  refine hR.bind hR.advance fun opening => hR.bind_moves (hR.expectFor (by simp) _) fun name => ?_
  refine hR.bind hdeclaredType fun type => hR.bind hdeclaredValue fun value => ?_
  refine hR.bind (hR.keeps (hR.expect (by simp))) fun _ => ?_
  cases hparts : Binding.ofParts name.lexeme (opening.kind == .word .const) type value with
  | ok binding => exact hR.pure rfl
  | error cause => exact hR.fail (Binding.plain_of_ofParts hparts)

theorem loop_collect {stop : Kind → Prop} [DecidablePred stop] {item item' : List α → Parse α}
    (h : ∀ before, R (fun _ => 1) (item before) (item' before)) (before : List α) :
    R (fun _ => 0) (Parse.loop (collect stop item) before) (Parse.loop (collect stop item') before) := by
  refine hR.loop (fun before => ?_) before
  refine hR.bind hR.kind fun k => ite (hR.pure rfl) (hR.round ?_)
  exact hR.bind_moves (h before) fun _ => hR.pure rfl

theorem untilBrace {item item' : List α → Parse α}
    (h : ∀ before, R (fun _ => 1) (item before) (item' before)) :
    R (fun _ => 1) (untilBrace item) (untilBrace item') := by
  rw [untilBrace_eq, untilBrace_eq]
  refine hR.bind (hR.loop_collect h []) fun items => ?_
  exact hR.bind_moves (hR.expect (by simp)) fun _ => hR.pure rfl

theorem objectType (h : ∀ b, R (fun _ => 1) (type b) (type' b)) :
    R (fun _ => 1) (objectType type) (objectType type') := by
  refine hR.bind_moves (hR.expect (by simp)) fun _ => ?_
  refine hR.bind (hR.keeps (hR.expectFor (by simp) _)) fun name => ?_
  refine hR.bind (hR.keeps (hR.expect (by simp))) fun _ => hR.bind ?_ fun _ => hR.pure rfl
  refine hR.keeps (hR.untilBrace fun before => ?_)
  refine hR.bind_moves (hR.expectFor (by simp) _) fun property => ?_
  refine hR.bind (hR.keeps (hR.expectFor (by simp) _)) fun _ => ?_
  refine hR.bind (hR.keeps (h .lowest)) fun _ => hR.bind (hR.keeps (hR.expect (by simp))) fun _ => ?_
  exact ite (hR.fail trivial) (hR.pure rfl)

theorem block (h : R (fun _ => 1) stmt stmt') : R (fun _ => 1) (block stmt) (block stmt') := by
  refine hR.bind_moves (hR.expect (by simp)) fun _ => ?_
  exact hR.bind (hR.keeps (hR.untilBrace fun _ => h)) fun _ => hR.pure rfl

theorem expressionStmt (h : ∀ b, R (fun _ => 1) (expr b) (expr' b)) :
    R (fun _ => 1) (expressionStmt expr) (expressionStmt expr') := by
  refine hR.bind_moves (h .lowest) fun _ => ?_
  exact hR.bind (hR.keeps (hR.expect (by simp))) fun _ => hR.pure rfl

theorem dispatch (ht : CoversTables R t) (htype : ∀ b, R (fun _ => 1) (type b) (type' b))
    (hexpr : ∀ b, R (fun _ => 1) (expr b) (expr' b)) {block block' : Parse Stmt}
    (hblock : R (fun _ => 1) block block') :
    R (fun _ => 1) (dispatch t type expr block) (dispatch t type' expr' block') := by
  refine hR.bind hR.kind fun k => ?_
  cases hform : t.statements k with
  | none => exact hR.expressionStmt hexpr
  | some form =>
    refine hR.bind (hR.record _) fun _ => ?_
    cases form with
    | any => exact ht.never hform
    | declaration => exact hR.declaration htype hexpr
    | object => exact hR.objectType htype
    | block => exact hblock

theorem untilEnd (h : R (fun _ => 1) stmt stmt') : R (fun _ => 0) (untilEnd stmt) (untilEnd stmt') := by
  rw [untilEnd_eq, untilEnd_eq]
  refine hR.bind (hR.loop_collect (fun _ => h) []) fun body => ?_
  exact hR.bind (hR.record _) fun _ => hR.pure rfl

end Statements

theorem stmtWithin (ht : CoversTables R t) (h : Rooms R n m) :
    R (fun _ => 1) (stmtWithin t n) (stmtWithin t m) := by
  induction n generalizing m with
  | zero =>
    rw [stmtWithin_eq, stmtWithin_eq]
    refine hR.dispatch ht (hR.typeWithin ht.expressions ht.types h) (hR.exprWithin ht.expressions h) ?_
    exact h.zero hR (q := blockWithin t) rfl
  | succ n ih =>
    obtain ⟨m, rfl, hroom⟩ := h.of_succ
    refine hR.dispatch ht (hR.typeWithin ht.expressions ht.types h) (hR.exprWithin ht.expressions h) ?_
    exact hR.block (ih hroom)

theorem formWithin (ht : CoversTables R t) (h : Rooms R n m) (form : StmtForm) :
    R (fun _ => 1) (formWithin t n form) (formWithin t m form) := by
  cases form with
  | any => exact hR.stmtWithin ht h
  | declaration =>
    exact hR.declaration (hR.typeWithin ht.expressions ht.types h) (hR.exprWithin ht.expressions h)
  | object => exact hR.objectType (hR.typeWithin ht.expressions ht.types h)
  | block =>
    cases n with
    | zero => exact h.zero hR (q := blockWithin t) rfl
    | succ n =>
      obtain ⟨m, rfl, hroom⟩ := h.of_succ
      exact hR.block (hR.stmtWithin ht hroom)

end Congruence

end Parse

end ScriptFront
