import ScriptFront.Proofs.Program.Exact

/-!
# What a run has looked at

A run looks at the tokens it passes and at the one where it ends, and at no others. So from every stream
that starts with the same tokens it ends in the same way at the same place, whatever comes after, and a
fault is one of all inputs that start like this (`parse_fault_local`). A fault that gives a token gives
the one at which the run stopped (`Fault.Names`): no form passes a token that it goes on to complain of.

`Parse.LocalAt p s` says this of the run of `p` from `s`. The forms that pass a token without a look at it
are entered only for tokens that the tables have an entry for, and these are never end tokens; at a last
token, which cannot be passed, the run would depend on whether it is the last.
-/

namespace ScriptFront

/-- The fault gives no other token than `t`, and does not say that a token of this kind was expected. -/
def Fault.Names (t : Token) : Fault → Prop
  | cannotStart _ kind lexeme => kind = t.kind ∧ lexeme = t.lexeme
  | cannotContinue _ kind lexeme => kind = t.kind ∧ lexeme = t.lexeme
  | unexpected expected received lexeme =>
    received = t.kind ∧ lexeme = t.lexeme ∧ expected ≠ received
  | unexpectedBecause expected received _ => received = t.kind ∧ expected ≠ received
  | _ => True

theorem Expr.names_of_statedSize {e : Expr} {cause : Fault} (t : Token)
    (h : e.statedSize = .error cause) : cause.Names t := by
  unfold statedSize at h
  split at h
  · cases h
    trivial
  · split at h
    · cases h
    · cases h
      trivial

theorem Binding.names_of_ofParts {name : String} {constant : Bool} {type : Option TypeRef}
    {value : Option Expr} {cause : Fault} (t : Token)
    (h : ofParts name constant type value = .error cause) : cause.Names t := by
  cases type <;> cases value <;> cases constant <;> cases h <;> trivial

/-- A token for which the language has the form of a literal can only be a number that is none. -/
theorem Token.names_of_toExpr {t : Token} {cause : Fault} (u : Token)
    (hform : ExprGrammar.opening t.kind = some .literal) (h : t.toExpr = .error cause) :
    cause.Names u := by
  unfold toExpr at h
  split at h
  · split at h
    · cases h
    · cases h
      trivial
  · cases h
  · cases h
  · next hnumber hidentifier hstring =>
    unfold ExprGrammar.opening at hform
    split at hform <;> contradiction

/-! ## Runs over the same tokens -/

namespace Stream

variable {s s₁ s₂ s' : Stream} {ends ends' : Stream → Stream → Prop}

/-- From every stream that starts with the tokens between `s` and `s₁` and the one at `s₁`, a run `ends`
behind the same tokens. -/
def Retraced (s s₁ : Stream) (ends : Stream → Stream → Prop) : Prop :=
  ∃ ts, s.Passes ts s₁ ∧
    ∀ s', ts ++ [s₁.current] <+: s'.rest → ∃ s₁', ends s' s₁' ∧ s'.Passes ts s₁'

theorem current_eq_of_starts {ts : List Token} (hpass : s.Passes ts s₁)
    (h : ts ++ [s₁.current] <+: s'.rest) : s'.current = s.current := by
  obtain ⟨us, hus⟩ := h
  have hrest := hpass.rest
  cases ts with
  | nil => exact (current_of_rest hus.symm).trans (current_of_rest hrest).symm
  | cons t ts => exact (current_of_rest hus.symm).trans (current_of_rest hrest).symm

namespace Retraced

theorem closed (h : s.Retraced s₁ ends) (hs : s.Closed) : s₁.Closed := by
  obtain ⟨ts, hpass, -⟩ := h
  exact hpass.closed hs

theorem imp (h : s.Retraced s₁ ends)
    (himp : ∀ s' s₁', s'.current = s.current → ends s' s₁' → ends' s' s₁') : s.Retraced s₁ ends' := by
  obtain ⟨ts, hpass, hagain⟩ := h
  refine ⟨ts, hpass, fun s' hs' => ?_⟩
  obtain ⟨s₁', hends, hpass'⟩ := hagain s' hs'
  exact ⟨s₁', himp s' s₁' (current_eq_of_starts hpass hs') hends, hpass'⟩

theorem refl (h : ∀ s', s'.current = s.current → ends s' s') : s.Retraced s ends := by
  refine ⟨[], .refl s, fun s' hs' => ⟨s', ?_, .refl s'⟩⟩
  exact h s' (current_eq_of_starts (.refl s) hs')

/-- A run that goes on from where another ended. If the first of them passed a token, so does every run
that retraces it. -/
theorem trans {next : Stream → Stream → Prop} (h : s.Retraced s₁ ends) (h' : s₁.Retraced s₂ next)
    (htrans : ∀ s' s₁' s₂' : Stream, (s₁.remaining < s.remaining → s₁'.remaining < s'.remaining) →
      ends s' s₁' → next s₁' s₂' → ends' s' s₂') : s.Retraced s₂ ends' := by
  obtain ⟨ts, hpass, hagain⟩ := h
  obtain ⟨us, hpass', hagain'⟩ := h'
  refine ⟨ts ++ us, hpass.trans hpass', fun s' hs' => ?_⟩
  -- the token at which the first run ended is the next one of the second
  have hfirst : ts ++ [s₁.current] <+: ts ++ (us ++ [s₂.current]) := by
    refine (List.prefix_append_right_inj ts).2 ?_
    have hrest := hpass'.rest
    cases us with
    | nil => exact ⟨[], by rw [List.append_nil, current_of_rest hrest]; rfl⟩
    | cons u us => exact ⟨us ++ [s₂.current], by rw [current_of_rest hrest]; rfl⟩
  rw [List.append_assoc] at hs'
  obtain ⟨s₁', hends, hpass₁⟩ := hagain s' (hfirst.trans hs')
  rw [hpass₁.rest, List.prefix_append_right_inj] at hs'
  obtain ⟨s₂', hnext, hpass₂⟩ := hagain' s₁' hs'
  refine ⟨s₂', htrans s' s₁' s₂' (fun hlt => hpass₁.remaining_lt ?_) hends hnext, hpass₁.trans hpass₂⟩
  rintro rfl
  have hlength := congrArg List.length hpass.rest
  rw [List.nil_append, length_rest, length_rest] at hlength
  omega

/-- A token that is not the last is passed in every stream that goes on with the next. -/
theorem advance (hs : s.Closed) (hk : s.current.kind ≠ .endOfInput)
    (h : ∀ s', s'.current = s.current → ends s' s'.advance) : s.Retraced s.advance ends := by
  have hpass := s.passes_advance hs hk
  refine ⟨[s.current], hpass, fun s' hs' => ?_⟩
  refine ⟨s'.advance, h s' (current_eq_of_starts hpass hs'), ?_⟩
  obtain ⟨us, hus⟩ := hs'
  exact passes_advance_of_rest hus.symm (List.cons_ne_nil _ us)

/-- An event does not matter to where the run started. -/
theorem of_record {event : Event} (h : (s.record event).Retraced s₁ ends)
    (hends : ∀ s' s₁', ends (s'.record event) s₁' → ends' s' s₁') : s.Retraced s₁ ends' := by
  obtain ⟨ts, hpass, hagain⟩ := h
  refine ⟨ts, hpass.of_record, fun s' hs' => ?_⟩
  obtain ⟨s₁', hrun, hpass'⟩ := hagain (s'.record event) hs'
  exact ⟨s₁', hends s' s₁' hrun, hpass'.of_record⟩

end Retraced

end Stream

variable {α β : Type}

namespace Parse

/-- The run of `p` from `s` has looked at no token behind the one at which it ends, and a fault names
that one. -/
structure LocalAt (p : Parse α) (s : Stream) : Prop where
  done : ∀ {a s₁}, p s = .done a s₁ → s.Retraced s₁ fun s' s₁' => p s' = .done a s₁'
  fault : ∀ {cause s₁}, p s = .fault cause s₁ →
    cause.Names s₁.current ∧ s.Retraced s₁ fun s' s₁' => p s' = .fault cause s₁'

/-- From every closed stream the run is local. -/
def Local (p : Parse α) : Prop := ∀ s, s.Closed → LocalAt p s

namespace LocalAt

variable {p : Parse α} {f : α → Parse β} {s : Stream}

theorem pure (a : α) (s : Stream) : LocalAt (Pure.pure a) s where
  done h := by
    obtain ⟨rfl, rfl⟩ := pure_eq_done.1 h
    exact .refl fun s' _ => rfl
  fault h := nomatch h

theorem fail {cause : Fault} (h : cause.Names s.current) : LocalAt (fail cause : Parse α) s where
  done h := nomatch h
  fault heq := by
    cases heq
    exact ⟨h, .refl fun s' _ => rfl⟩

theorem never (s : Stream) : LocalAt (never : Parse α) s where
  done h := nomatch h
  fault h := nomatch h

/-- A parser that comes to nothing but what another one comes to from where the token is the same. -/
theorem of_eq {q : Parse α} (heq : ∀ s', s'.current = s.current → p s' = q s') (h : LocalAt q s) :
    LocalAt p s where
  done hp := by
    rw [heq s rfl] at hp
    exact (h.done hp).imp fun s' s₁' hcurrent hq => (heq s' hcurrent).trans hq
  fault hp := by
    rw [heq s rfl] at hp
    refine ⟨(h.fault hp).1, (h.fault hp).2.imp fun s' s₁' hcurrent hq => ?_⟩
    exact (heq s' hcurrent).trans hq

theorem current_bind {f : Token → Parse β} (h : LocalAt (f s.current) s) :
    LocalAt (current >>= f) s :=
  of_eq (fun s' hcurrent => by rw [Parse.current_bind, hcurrent]) h

theorem kind_bind {f : Kind → Parse β} (h : LocalAt (f s.current.kind) s) :
    LocalAt (kind >>= f) s :=
  of_eq (fun s' hcurrent => by rw [Parse.kind_bind, hcurrent]) h

theorem bind (hs : s.Closed) (h : LocalAt p s) (h' : ∀ a, Local (f a)) :
    LocalAt (p >>= f) s where
  done hrun := by
    obtain ⟨a, s₁, hp, hf⟩ := bind_eq_done.1 hrun
    have hfirst := h.done hp
    refine hfirst.trans ((h' a s₁ (hfirst.closed hs)).done hf) fun s' s₁' s₂' _ hp' hf' => ?_
    rw [bind_done hp', hf']
  fault hrun := by
    obtain hp | ⟨a, s₁, hp, hf⟩ := bind_eq_fault.1 hrun
    · exact ⟨(h.fault hp).1, (h.fault hp).2.imp fun s' s₁' _ hp' => bind_fault hp'⟩
    · have hfirst := h.done hp
      have hnext := (h' a s₁ (hfirst.closed hs)).fault hf
      refine ⟨hnext.1, hfirst.trans hnext.2 fun s' s₁' s₂' _ hp' hf' => ?_⟩
      rw [bind_done hp', hf']

theorem advance (hs : s.Closed) (hk : s.current.kind ≠ .endOfInput) : LocalAt advance s where
  done h := by
    cases h
    exact .advance hs hk fun s' hcurrent => by rw [Parse.advance, hcurrent]
  fault h := nomatch h

theorem record_bind {event : Event} {f : Unit → Parse β} (h : LocalAt (f ()) (s.record event)) :
    LocalAt (record event >>= f) s where
  done hrun := by
    rw [Parse.record_bind] at hrun
    refine (h.done hrun).of_record fun s' s₁' hrun' => ?_
    rw [Parse.record_bind, hrun']
  fault hrun := by
    rw [Parse.record_bind] at hrun
    refine ⟨(h.fault hrun).1, (h.fault hrun).2.of_record fun s' s₁' hrun' => ?_⟩
    rw [Parse.record_bind, hrun']

theorem expectOr {k : Kind} {cause : Token → Fault} (hs : s.Closed) (hk : k ≠ .endOfInput)
    (hcause : ∀ t : Token, t.kind ≠ k → (cause t).Names t) : LocalAt (expectOr k cause) s where
  done h := by
    obtain ⟨hkind, rfl, rfl⟩ := expectOr_eq_done.1 h
    refine .advance hs (hkind ▸ hk) fun s' hcurrent => ?_
    exact expectOr_eq_done.2 ⟨by rw [hcurrent, hkind], hcurrent, rfl⟩
  fault h := by
    unfold Parse.expectOr at h
    split at h
    · cases h
    · next hkind =>
      cases h
      refine ⟨hcause _ hkind, .refl fun s' hcurrent => ?_⟩
      rw [Parse.expectOr, hcurrent, if_neg hkind]

theorem expect {m : Kind} (hs : s.Closed) (hk : m ≠ .endOfInput) : LocalAt (expect m) s :=
  expectOr hs hk fun _ hne => ⟨rfl, rfl, hne.symm⟩

theorem expectFor {k : Kind} (reason : String) (hs : s.Closed) (hk : k ≠ .endOfInput) :
    LocalAt (expectFor k reason) s :=
  expectOr hs hk fun _ hne => ⟨rfl, hne.symm⟩

theorem ite {c : Prop} [Decidable c] {q : Parse α} (h : c → LocalAt p s) (h' : ¬ c → LocalAt q s) :
    LocalAt (if c then p else q) s := by
  split
  · next hc => exact h hc
  · next hc => exact h' hc

theorem loop {round : α → Parse (Round α)} (h : ∀ a, Local (round a)) (a : α) (hs : s.Closed) :
    LocalAt (loop round a) s := by
  generalize hn : s.remaining = n
  induction n using Nat.strongRecOn generalizing a s with
  | ind n ih =>
    -- a round that asks for another has to have passed a token, here and in the other stream
    have hagain {b : α} {s₁ : Stream} (hr : round a s = .done (.again b) s₁)
        (hlt : s₁.remaining < s.remaining) : LocalAt (Parse.loop round b) s₁ :=
      ih _ (hn ▸ hlt) b (((h a s hs).done hr).closed hs) rfl
    constructor
    · intro b s₂ hrun
      obtain hr | ⟨b', s₁, hr, hlt, hrun⟩ := loop_eq_done.1 hrun
      · exact ((h a s hs).done hr).imp fun s' s₁' _ hr' => loop_over hr'
      · refine ((h a s hs).done hr).trans ((hagain hr hlt).done hrun) ?_
        intro s' s₁' s₂' hshorter hr' hrun'
        rw [loop_again hr' (hshorter hlt), hrun']
    · intro cause s₂ hrun
      obtain hr | ⟨b', s₁, hr, hlt, hrun⟩ := loop_eq_fault.1 hrun
      · obtain ⟨hnames, hround⟩ := (h a s hs).fault hr
        exact ⟨hnames, hround.imp fun s' s₁' _ hr' => loop_fault hr'⟩
      · obtain ⟨hnames, hrest⟩ := (hagain hr hlt).fault hrun
        refine ⟨hnames, ((h a s hs).done hr).trans hrest ?_⟩
        intro s' s₁' s₂' hshorter hr' hrun'
        rw [loop_again hr' (hshorter hlt), hrun']

end LocalAt

/-! ## Phrases -/

section Climb

variable {σ τ : Type} {g : Grammar σ τ} {start : σ → Parse α} {more : τ → Power → α → Parse α}

theorem operand_local (phrase : Phrase)
    (h : ∀ s form, s.Closed → g.starts s.current.kind = some form → LocalAt (start form) s) :
    Local (operand phrase g start) := by
  intro s hs
  refine .current_bind ?_
  cases hform : g.starts s.current.kind with
  | none => exact .fail ⟨rfl, rfl⟩
  | some form => exact h s form hs hform

theorem extend_local (phrase : Phrase) (bound : Power) (left : α)
    (h : ∀ s form power left, s.Closed → g.continues s.current.kind = some form →
      LocalAt (more form power left) s) :
    Local (extend phrase g more bound left) := by
  intro s hs
  refine .loop (fun left s hs => ?_) left hs
  refine .current_bind (.ite (fun _ => .pure _ s) fun _ => ?_)
  cases hform : g.continues s.current.kind with
  | none => exact .fail ⟨rfl, rfl⟩
  | some form =>
    refine .record_bind (.bind hs (h (s.record _) form _ left hs hform) fun _ s _ => ?_)
    exact .pure _ s

theorem climb_local (phrase : Phrase) (bound : Power)
    (h : ∀ s form, s.Closed → g.starts s.current.kind = some form → LocalAt (start form) s)
    (h' : ∀ s form power left, s.Closed → g.continues s.current.kind = some form →
      LocalAt (more form power left) s) :
    Local (climb phrase g start more bound) := fun s hs =>
  .bind hs (operand_local phrase h s hs) fun left => extend_local phrase bound left h'

end Climb

section Expressions

variable {s : Stream} {expr : Power → Parse Expr}

theorem exprItem_local (h : ∀ b, Local (expr b)) (closing : Mark) (items : List Expr) :
    Local (exprItem expr closing items) := by
  intro s hs
  refine .kind_bind (.ite (fun _ => .pure _ s) fun _ => .bind hs (h .comma s hs) fun item s hs => ?_)
  refine .kind_bind (.ite (fun hcomma => ?_) fun _ => .pure _ s)
  exact .bind hs (.advance hs (by simp [hcomma])) fun _ s _ => .pure _ s

theorem exprList_local (h : ∀ b, Local (expr b)) (closing : Mark) :
    Local (exprList expr closing) := by
  intro s hs
  refine .bind hs (.loop (exprItem_local h closing) [] hs) fun items s hs => ?_
  exact .bind hs (.expect hs (by simp)) fun _ s _ => .pure _ s

/-- A form that starts an expression, at a token that starts one in this form. -/
theorem startForm_local (h : ∀ b, Local (expr b)) (hs : s.Closed) {form : StartForm}
    (hform : ExprGrammar.opening s.current.kind = some form) : LocalAt (startForm expr form) s := by
  have hk : s.current.kind ≠ .endOfInput := by
    intro hk
    simp [ExprGrammar.opening, hk] at hform
  cases form with
  | literal =>
    cases he : s.current.toExpr with
    | ok e =>
      refine .of_eq (q := advance >>= fun _ => pure e) (fun s' hcurrent => ?_) ?_
      · rw [startForm, literal, advance_bind, hcurrent, he]
        rfl
      · exact .bind hs (.advance hs hk) fun _ s _ => .pure e s
    | error cause =>
      refine .of_eq (q := advance >>= fun _ => fail cause) (fun s' hcurrent => ?_) ?_
      · rw [startForm, literal, advance_bind, hcurrent, he]
        rfl
      · exact .bind hs (.advance hs hk) fun _ s _ => .fail (Token.names_of_toExpr _ hform he)
  | unary =>
    refine .bind hs (.advance hs hk) fun operator s hs => .bind hs (h .unary s hs) fun _ s _ => ?_
    exact .pure _ s
  | parenthesised =>
    refine .bind hs (.advance hs hk) fun _ s hs => .bind hs (h .lowest s hs) fun e s hs => ?_
    exact .bind hs (.expect hs (by simp)) fun _ s _ => .pure _ s
  | group =>
    refine .bind hs (.expect hs (by simp)) fun _ s hs => ?_
    exact .bind hs (exprList_local h .closeBracket s hs) fun _ s _ => .pure _ s

/-- A form that continues an expression, at a token that continues one. -/
theorem continueForm_local (h : ∀ b, Local (expr b)) (hs : s.Closed)
    (hk : s.current.kind ≠ .endOfInput) (form : ContinueForm) (power : Power) (left : Expr) :
    LocalAt (continueForm expr form power left) s := by
  cases form with
  | binary | member =>
    refine .bind hs (.advance hs hk) fun operator s hs => .bind hs (h power s hs) fun _ s _ => ?_
    exact .pure _ s
  | assign =>
    refine .bind hs (.advance hs hk) fun operator s hs => .bind hs (h .comma s hs) fun _ s _ => ?_
    exact .pure _ s
  | construct =>
    cases left with
    | symbol name =>
      refine .bind hs (.expect hs (by simp)) fun _ s hs => ?_
      exact .bind hs (exprList_local h .closeParen s hs) fun _ s _ => .pure _ s
    | _ => exact .fail trivial

end Expressions

theorem exprWithin_local (n : Nat) (bound : Power) :
    Local (exprWithin ExprGrammar.standard n bound) := by
  induction n generalizing bound with
  | zero => exact fun s _ => .fail trivial
  | succ n ih =>
    refine climb_local .expression bound (fun s form hs hform => startForm_local ih hs hform) ?_
    intro s form power left hs hform
    refine continueForm_local ih hs (fun hk => ?_) form power left
    rw [hk] at hform
    cases hform

theorem typeForm_local {type : Power → Parse TypeRef} {expr : Power → Parse Expr}
    (htype : ∀ b, Local (type b)) (hexpr : ∀ b, Local (expr b)) (form : TypeForm) :
    Local (typeForm type expr form) := by
  intro s hs
  cases form with
  | named => exact .bind hs (.expect hs (by simp)) fun _ s _ => .pure _ s
  | group =>
    refine .bind hs ?_ fun parts s hs => ?_
    · refine .bind hs (.expect hs (by simp)) fun _ s hs => .bind hs (.expect hs (by simp)) fun _ s hs => ?_
      refine .bind hs (htype .lowest s hs) fun element s hs => ?_
      refine .bind hs (.expect hs (by simp)) fun _ s hs => ?_
      refine .bind hs (hexpr .relational s hs) fun size s hs => ?_
      exact .bind hs (.expect hs (by simp)) fun _ s hs => .pure _ s
    · cases hsize : parts.2.statedSize with
      | ok size => exact .pure _ s
      | error cause => exact .fail (Expr.names_of_statedSize _ hsize)

theorem typeWithin_local (n : Nat) (bound : Power) : Local (typeWithin .standard n bound) := by
  induction n generalizing bound with
  | zero => exact fun s _ => .fail trivial
  | succ n ih =>
    refine climb_local .typeRef bound (fun s form hs _ => ?_) fun s form => nomatch form
    exact typeForm_local ih (exprWithin_local n) form s hs

/-! ## Statements -/

section Statements

variable {type : Power → Parse TypeRef} {expr : Power → Parse Expr}

theorem declaredType_local (h : ∀ b, Local (type b)) : Local (declaredType type) := by
  intro s hs
  refine .kind_bind (.ite (fun hcolon => ?_) fun _ => .pure _ s)
  refine .bind hs (.advance hs (by simp [hcolon])) fun _ s hs => ?_
  exact .bind hs (h .lowest s hs) fun _ s _ => .pure _ s

theorem declaredValue_local (h : ∀ b, Local (expr b)) : Local (declaredValue expr) := by
  intro s hs
  refine .kind_bind (.ite (fun _ => .pure _ s) fun _ => ?_)
  refine .bind hs (.expect hs (by simp)) fun _ s hs => ?_
  exact .bind hs (h .assignment s hs) fun _ s _ => .pure _ s

theorem declaration_local {s : Stream} (htype : ∀ b, Local (type b)) (hexpr : ∀ b, Local (expr b))
    (hs : s.Closed) (hk : s.current.kind ≠ .endOfInput) : LocalAt (declaration type expr) s := by
  refine .bind hs (.advance hs hk) fun opening s hs => ?_
  refine .bind hs (.expectFor _ hs (by simp)) fun name s hs => ?_
  refine .bind hs (declaredType_local htype s hs) fun type s hs => ?_
  refine .bind hs (declaredValue_local hexpr s hs) fun value s hs => ?_
  refine .bind hs (.expect hs (by simp)) fun _ s hs => ?_
  cases hparts : Binding.ofParts name.lexeme (opening.kind == .word .const) type value with
  | ok binding => exact .pure _ s
  | error cause => exact .fail (Binding.names_of_ofParts _ hparts)

theorem loop_collect_local {stop : Kind → Prop} [DecidablePred stop] {item : List α → Parse α}
    (h : ∀ before, Local (item before)) (before : List α) :
    Local (loop (collect stop item) before) := by
  intro s hs
  refine .loop (fun before s hs => ?_) before hs
  refine .kind_bind (.ite (fun _ => .pure _ s) fun _ => ?_)
  exact .bind hs (h before s hs) fun _ s _ => .pure _ s

theorem untilBrace_local {item : List α → Parse α} (h : ∀ before, Local (item before)) :
    Local (untilBrace item) := by
  intro s hs
  rw [untilBrace_eq]
  refine .bind hs (loop_collect_local h [] s hs) fun items s hs => ?_
  exact .bind hs (.expect hs (by simp)) fun _ s _ => .pure _ s

theorem property_local (h : ∀ b, Local (type b)) (object : String) (before : List Property) :
    Local (property type object before) := by
  intro s hs
  refine .bind hs (.expectFor _ hs (by simp)) fun name s hs => ?_
  refine .bind hs (.expectFor _ hs (by simp)) fun _ s hs => ?_
  refine .bind hs (h .lowest s hs) fun type s hs => ?_
  refine .bind hs (.expect hs (by simp)) fun _ s hs => ?_
  exact .ite (fun _ => .fail trivial) fun _ => .pure _ s

theorem objectType_local (h : ∀ b, Local (type b)) : Local (objectType type) := by
  intro s hs
  refine .bind hs (.expect hs (by simp)) fun _ s hs => ?_
  refine .bind hs (.expectFor _ hs (by simp)) fun name s hs => ?_
  refine .bind hs (.expect hs (by simp)) fun _ s hs => ?_
  exact .bind hs (untilBrace_local (property_local h name.lexeme) s hs) fun _ s _ => .pure _ s

theorem block_local {stmt : Parse Stmt} (h : Local stmt) : Local (block stmt) := by
  intro s hs
  refine .bind hs (.expect hs (by simp)) fun _ s hs => ?_
  exact .bind hs (untilBrace_local (fun _ => h) s hs) fun _ s _ => .pure _ s

theorem expressionStmt_local (h : ∀ b, Local (expr b)) : Local (expressionStmt expr) := by
  intro s hs
  refine .bind hs (h .lowest s hs) fun e s hs => ?_
  exact .bind hs (.expect hs (by simp)) fun _ s _ => .pure _ s

end Statements

theorem dispatch_local (n : Nat) {block : Parse Stmt} (hblock : Local block) :
    Local (dispatch .standard (typeWithin .standard n) (exprWithin .standard n) block) := by
  intro s hs
  refine .kind_bind ?_
  cases hform : Tables.standard.statements s.current.kind with
  | none => exact expressionStmt_local (exprWithin_local n) s hs
  | some form =>
    have hk : s.current.kind ≠ .endOfInput := by
      intro hk
      rw [hk] at hform
      cases hform
    refine .record_bind ?_
    cases form with
    | any => exact .never _
    | declaration => exact declaration_local (typeWithin_local n) (exprWithin_local n) hs hk
    | object => exact objectType_local (typeWithin_local n) _ hs
    | block => exact hblock _ hs

theorem stmtWithin_local (n : Nat) : Local (stmtWithin .standard n) := by
  induction n with
  | zero => exact dispatch_local 0 fun s _ => .fail trivial
  | succ n ih => exact dispatch_local (n + 1) (block_local ih)

theorem statements_local (n : Nat) (before : List Stmt) : Local (statements n before) :=
  loop_collect_local (fun _ => stmtWithin_local n) before

end Parse

/-! ## Programs -/

/-- The last of the tokens is an end token. -/
def Terminated (tokens : List Token) : Prop :=
  tokens.getLast?.map Token.kind = some .endOfInput

instance (tokens : List Token) : Decidable (Terminated tokens) :=
  inferInstanceAs (Decidable (_ = _))

theorem Stream.terminated_iff {tokens : List Token} :
    Terminated tokens ↔ ∃ s, ofTokens tokens = .ok s := by
  cases tokens with
  | nil => exact ⟨nofun, nofun⟩
  | cons t ts =>
    rw [Terminated, List.getLast?_eq_some_getLast (List.cons_ne_nil t ts), ofTokens]
    simp only [Option.map_some, Option.some.injEq]
    constructor
    · intro h
      exact ⟨_, if_pos h⟩
    · rintro ⟨s, hs⟩
      split at hs
      · next h => exact h
      · cases hs

/-- The index of the token at which the reading of a program stops. -/
def stopIndex? (tokens : List Token) : Option Nat :=
  match Stream.ofTokens tokens with
  | .ok s =>
    match Parse.program .standard s with
    | .done _ s' | .fault _ s' => some s'.index
    | .endless => none
  | .error _ => none

/-- What has been passed and the token after it are the first tokens of the stream. -/
theorem Stream.Passes.take_eq {s s' : Stream} {ts : List Token} (h : s.Passes ts s') :
    s.rest.take (ts.length + 1) = ts ++ [s'.current] := by
  rw [h.rest, List.take_length_add_append]
  rfl

theorem parse_of_statements_fault {tokens : List Token} {s s' : Stream} {cause : Fault}
    (hs : Stream.ofTokens tokens = .ok s)
    (h : Parse.statements maxNesting [] s = .fault cause s') :
    parse tokens = .fault cause ∧ stopIndex? tokens = some s'.index := by
  have hprogram : Parse.program .standard s = .fault cause s' := by
    rw [Parse.program_eq, Stream.room_of_ofTokens hs]
    exact Parse.bind_fault h
  constructor
  · rw [parse_of_ofTokens hs, h]
  · simp only [stopIndex?, hs, hprogram]

theorem statements_fault_of_parse {tokens : List Token} {s : Stream} {cause : Fault}
    (hs : Stream.ofTokens tokens = .ok s) (h : parse tokens = .fault cause) :
    ∃ s', Parse.statements maxNesting [] s = .fault cause s' := by
  rw [parse_of_ofTokens hs] at h
  split at h
  · cases h
  · next s' hrun =>
    cases h
    exact ⟨s', hrun⟩
  · cases h

theorem terminated_of_parse {tokens : List Token} {p : Program} (h : parse tokens = .ok p) :
    Terminated tokens := by
  rw [Stream.terminated_iff]
  cases hs : Stream.ofTokens tokens with
  | ok s => exact ⟨s, rfl⟩
  | error cause =>
    simp only [parse, parseRun, Run.ofTokens, hs] at h
    cases h

/-- A fault stops the run at a token, which is the one that the fault names if it names one, and no input
that goes on differently behind this token is read in another way: it has the same fault at the same
place. -/
theorem parse_fault_local {ts : List Token} {cause : Fault} (hts : Terminated ts)
    (h : parse ts = .fault cause) :
    ∃ p t, stopIndex? ts = some p ∧ ts[p]? = some t ∧ cause.Names t ∧
      (∀ us, Terminated us → us.take (p + 1) = ts.take (p + 1) →
        parse us = .fault cause ∧ stopIndex? us = some p) ∧
      ∀ us program, ts.take (p + 1) <+: us → parse us ≠ .ok program := by
  obtain ⟨s, hs⟩ := Stream.terminated_iff.1 hts
  obtain ⟨hindex, hrest, hclosed⟩ := Stream.of_ofTokens hs
  obtain ⟨s₁, hrun⟩ := statements_fault_of_parse hs h
  obtain ⟨hnames, read, hpass, hagain⟩ := (Parse.statements_local maxNesting [] s hclosed).fault hrun
  have hstop : s₁.index = read.length := by rw [hpass.index, hindex, Nat.zero_add]
  have hread : ts.take (read.length + 1) = read ++ [s₁.current] := by rw [← hrest, hpass.take_eq]
  have hsame (us : List Token) (hus : Terminated us) (hstart : ts.take (read.length + 1) <+: us) :
      parse us = .fault cause ∧ stopIndex? us = some read.length := by
    obtain ⟨s', hs'⟩ := Stream.terminated_iff.1 hus
    obtain ⟨hindex', hrest', -⟩ := Stream.of_ofTokens hs'
    rw [hread, ← hrest'] at hstart
    obtain ⟨s₁', hrun', hpass'⟩ := hagain s' hstart
    have hstop' : s₁'.index = read.length := by rw [hpass'.index, hindex', Nat.zero_add]
    rw [← hstop']
    exact parse_of_statements_fault hs' hrun'
  refine ⟨read.length, s₁.current, ?_, ?_, hnames, fun us hus htake => ?_, fun us p hstart hok => ?_⟩
  · rw [← hstop]
    exact (parse_of_statements_fault hs hrun).2
  · rw [← hrest, hpass.rest]
    simp [Stream.rest]
  · exact hsame us hus (htake ▸ List.take_prefix _ us)
  · rw [(hsame us (terminated_of_parse hok) hstart).1] at hok
    cases hok

/-- After `{ f(a b` there is nothing that makes a program of it. -/
theorem parse_fault_local_argument :
    parse [⟨.mark .openCurly, "\x7b"⟩, ⟨.identifier, "f"⟩, ⟨.mark .openParen, "("⟩, ⟨.identifier, "a"⟩,
        ⟨.identifier, "b"⟩, .endOfInput] = .fault (.unexpected (.mark .closeParen) .identifier "b") ∧
      parse [⟨.mark .openCurly, "\x7b"⟩, ⟨.identifier, "f"⟩, ⟨.mark .openParen, "("⟩,
        ⟨.identifier, "a"⟩, ⟨.identifier, "b"⟩, ⟨.mark .closeParen, ")"⟩, ⟨.mark .semicolon, ";"⟩,
        ⟨.mark .closeCurly, "\x7d"⟩, .endOfInput] =
          .fault (.unexpected (.mark .closeParen) .identifier "b") := by
  have hfault : parse [⟨.mark .openCurly, "\x7b"⟩, ⟨.identifier, "f"⟩, ⟨.mark .openParen, "("⟩,
      ⟨.identifier, "a"⟩, ⟨.identifier, "b"⟩, .endOfInput] =
        .fault (.unexpected (.mark .closeParen) .identifier "b") := by
    with_unfolding_all rfl
  obtain ⟨p, t, hp, -, -, hsame, -⟩ := parse_fault_local (by decide) hfault
  obtain rfl : 4 = p := Option.some.inj (hp ▸ by decide +kernel)
  refine ⟨hfault, (hsame _ ?_ ?_).1⟩
  · decide
  · rfl

end ScriptFront
