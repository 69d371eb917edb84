import ScriptFront.Proofs.Expression.Complete

/-!
# What is read is a phrase of the grammar

Whatever the reader of expressions comes to, the grammar derives from the tokens it has passed. A step
of the reader continues the tree so far by one operator (`Parse.continueForm_sound`): the tree is a
phrase of some layer, tight enough to be the operator's left operand, and what it becomes is a phrase
of the operator's layer before a token that does not break that phrase up. From this the whole run
follows by induction on its operators, and the runs for operands by induction on the levels of nesting.
-/

namespace ScriptFront

namespace Layer

/-- The place of a layer in the order. -/
def rank : Layer → Nat
  | assignment => 0
  | logical => 1
  | relational => 2
  | additive => 3
  | multiplicative => 4
  | unary => 5
  | primary => 6
  | atom => 7

variable {l l' : Layer}

theorem exists_tighter (h : l.rank < l'.rank) : ∃ l₁, l.tighter? = some l₁ ∧ l₁.rank = l.rank + 1 := by
  cases l with
  | atom => cases l' <;> simp [rank] at h
  | _ => exact ⟨_, rfl, rfl⟩

theorem eq_of_rank_eq (h : l.rank = l'.rank) : l = l' := by
  cases l <;> cases l' <;> first | rfl | cases h

/-- The layers below the members are ordered as the powers they reach to. -/
theorem rank_le_of_reach_le (h : l.reach ≤ l'.reach) (hl : l ≠ .atom) : l.rank ≤ l'.rank := by
  cases l <;> cases l' <;> first | decide | exact absurd h (by decide) | exact absurd rfl hl

/-- The target of an assignment is a phrase without assignments. -/
theorem rank_logical_le (h : .assignment ≤ l.reach) : logical.rank ≤ l.rank := by
  cases l <;> first | decide | exact absurd h (by decide)

variable {b : Power}

theorem rank_le_of_bound_lt (hb : ofBound? b = some l) (h : b < l'.reach) : l.rank ≤ l'.rank := by
  cases b <;> cases hb <;> cases l' <;> first | decide | exact absurd h (by decide)

theorem rank_le_assignment (hb : ofBound? b = some l) (h : b < .assignment) :
    l.rank ≤ assignment.rank := by
  cases b <;> cases hb <;> first | decide | exact absurd h (by decide)

theorem rank_le_unary (hb : ofBound? b = some l) : l.rank ≤ unary.rank := by
  cases b <;> cases hb <;> decide

end Layer

/-- A phrase of a layer is one of each looser layer. -/
theorem Derives.loosen {n : Nat} {l l' : Layer} {ts : List Token} {e : Expr}
    (h : Derives n l' ts e) (hl : l.rank ≤ l'.rank) : Derives n l ts e := by
  rcases Nat.eq_or_lt_of_le hl with heq | hlt
  · exact Layer.eq_of_rank_eq heq ▸ h
  · obtain ⟨l₁, hl₁, hrank⟩ := Layer.exists_tighter hlt
    exact .lift hl₁ (h.loosen (hrank ▸ hlt))
termination_by l'.rank - l.rank

namespace ExprGrammar

/-- Only marks continue an expression. -/
theorem exists_operator {k : Kind} {form : ContinueForm} (h : standard.continues k = some form) :
    ∃ m, k = .mark m ∧ operator m = some (standard.power k, form) := by
  cases k with
  | mark m =>
    obtain ⟨⟨p, form'⟩, hop, rfl⟩ := Option.map_eq_some_iff.1 h
    exact ⟨m, rfl, by simp [standard, hop]⟩
  | _ => cases h

theorem opening_unary {k : Kind} (h : opening k = some .unary) :
    ∃ m, k = .mark m ∧ m ∈ Mark.negating := by
  cases k with
  | mark m => exact ⟨m, rfl, by cases m <;> cases h <;> decide⟩
  | _ => cases h

theorem opening_parenthesised {k : Kind} (h : opening k = some .parenthesised) :
    k = .mark .openParen := by
  cases k with
  | mark m => cases m <;> cases h; rfl
  | _ => cases h

variable {m : Mark} {p : Power}

theorem operator_assign (h : operator m = some (p, .assign)) :
    m ∈ Mark.assigning ∧ p = .assignment := by
  cases m <;> cases h <;> decide

/-- A binary operator belongs to the layer that reaches to its power, and its power is the bound of the
next tighter layer. -/
theorem operator_binary (h : operator m = some (p, .binary)) :
    ∃ l l' : Layer, m ∈ l.joins ∧ l.reach = p ∧ l.tighter? = some l' ∧ Layer.ofBound? p = some l' := by
  have hlayer : ∃ l ∈ [Layer.logical, .relational, .additive, .multiplicative],
      m ∈ l.joins ∧ l.reach = p ∧ l.tighter?.isSome ∧ Layer.ofBound? p = l.tighter? := by
    cases m <;> cases h <;> decide
  obtain ⟨l, -, hm, hp, hsome, heq⟩ := hlayer
  obtain ⟨l', hl'⟩ := Option.isSome_iff_exists.1 hsome
  exact ⟨l, l', hm, hp, hl', heq.trans hl'⟩

theorem operator_construct (h : operator m = some (p, .construct)) : m = .openParen ∧ p = .call := by
  cases m <;> cases h
  decide

theorem operator_member (h : operator m = some (p, .member)) : m = .dot ∧ p = .member := by
  cases m <;> cases h
  decide

end ExprGrammar

/-- The tokens write a first operand before the token `k`: an atom, or an operator before its operand,
which then reaches as far as it can. -/
inductive Operand : Nat → Token → List Token → Expr → Prop where
  | atom {n : Nat} {k : Token} {ts : List Token} {e : Expr} (h : Derives n .atom ts e) :
      Operand n k ts e
  | negate {n : Nat} {k op : Token} {m : Mark} {ts : List Token} {e : Expr}
      (hop : op.kind = .mark m) (hm : m ∈ Mark.negating) (h : Derives n .unary ts e)
      (hk : ExprGrammar.standard.power k.kind ≤ .unary) : Operand (n + 1) k (op :: ts) (.unary op e)

namespace Parse

variable {n : Nat} {s s' : Stream} {b : Power} {e : Expr} {m : Mark} {acc : List Expr}

/-- Whatever is read within so many levels, the grammar derives. -/
def SoundWithin (n : Nat) : Prop :=
  ∀ {b : Power} {l : Layer} {s s' : Stream} {e : Expr}, Layer.ofBound? b = some l → s.Closed →
    exprWithin .standard n b s = .done e s' →
    ∃ ts, s.Passes ts s' ∧ Derives n l ts e ∧ ExprGrammar.standard.power s'.current.kind ≤ b

/-! ## Lists -/

/-- What one round of a list does: nothing at the closing mark, and otherwise it reads an item and the
comma after it. -/
theorem exprItem_cases {expr : Power → Parse Expr} {r : Round (List Expr)}
    (h : exprItem expr m acc s = .done r s') :
    (r = .over acc ∧ s' = s) ∨
    ∃ e s₁, expr .comma s = .done e s₁ ∧
      ((s₁.current.kind = .mark .comma ∧ r = .again (e :: acc) ∧ s' = s₁.advance) ∨
        (r = .over (e :: acc) ∧ s' = s₁)) := by
  rw [exprItem, kind_bind] at h
  split at h
  · obtain ⟨rfl, rfl⟩ := pure_eq_done.1 h
    exact .inl ⟨rfl, rfl⟩
  · obtain ⟨e, s₁, he, h⟩ := bind_eq_done.1 h
    refine .inr ⟨e, s₁, he, ?_⟩
    rw [kind_bind] at h
    split at h
    · next hcomma =>
      obtain ⟨rfl, rfl⟩ := pure_eq_done.1 h
      exact .inl ⟨hcomma, rfl, rfl⟩
    · obtain ⟨rfl, rfl⟩ := pure_eq_done.1 h
      exact .inr ⟨rfl, rfl⟩

theorem loop_exprItem_sound (hn : SoundWithin n) {r : List Expr} (hs : s.Closed)
    (h : loop (exprItem (exprWithin .standard n) m) acc s = .done r s') :
    ∃ (items : List (List Token × Expr)) (us : List Token), s.Passes us s' ∧
      Separated (items.map Prod.fst) us ∧ (∀ item ∈ items, Derives n .assignment item.1 item.2) ∧
      r = (items.map Prod.snd).reverse ++ acc := by
  revert hs
  refine loop_induct (fun acc s hr => ?_) (fun acc s acc' s₁ hr ih => ?_) h <;> intro hs
  · obtain ⟨heq, rfl⟩ | ⟨e, s₁, he, ⟨-, heq, -⟩ | ⟨heq, rfl⟩⟩ := exprItem_cases hr
    · cases heq
      exact ⟨[], [], .refl s', .nil, by simp, rfl⟩
    · cases heq
    · cases heq
      obtain ⟨ts, hpass, hts, -⟩ := hn rfl hs he
      exact ⟨[(ts, e)], ts, hpass, .last ts, by simpa using hts, rfl⟩
  · obtain ⟨heq, -⟩ | ⟨e, s₂, he, ⟨hcomma, heq, rfl⟩ | ⟨heq, -⟩⟩ := exprItem_cases hr
    · cases heq
    · cases heq
      obtain ⟨ts, hpass, hts, -⟩ := hn rfl hs he
      have hstep := s₂.passes_advance (hpass.closed hs) (by simp [hcomma])
      have hpass' := hpass.trans hstep
      obtain ⟨items, us, hrest, hus, hitems, rfl⟩ := ih (hpass'.closed hs)
      refine ⟨(ts, e) :: items, ts ++ s₂.current :: us, ?_, .comma hcomma hus, ?_, by simp⟩
      · simpa using hpass'.trans hrest
      · exact List.forall_mem_cons.2 ⟨hts, hitems⟩
    · cases heq

/-- A list read to its closing mark is a list of phrases. -/
theorem exprList_sound (hn : SoundWithin n) {es : List Expr} (hs : s.Closed)
    (h : exprList (exprWithin .standard n) m s = .done es s') :
    ∃ (items : List (List Token × Expr)) (us : List Token) (closing : Token),
      s.Passes (us ++ [closing]) s' ∧ closing.kind = .mark m ∧ Separated (items.map Prod.fst) us ∧
      (∀ item ∈ items, Derives n .assignment item.1 item.2) ∧ es = items.map Prod.snd := by
  obtain ⟨r, s₁, hloop, h⟩ := bind_eq_done.1 h
  obtain ⟨closing, s₂, hclose, h⟩ := bind_eq_done.1 h
  obtain ⟨rfl, rfl⟩ := pure_eq_done.1 h
  obtain ⟨items, us, hpass, hus, hitems, rfl⟩ := loop_exprItem_sound hn hs hloop
  obtain ⟨hc, hpass'⟩ := passes_of_expectOr (hpass.closed hs) (by simp) hclose
  exact ⟨items, us, closing, hpass.trans hpass', hc, hus, hitems, by simp⟩

/-! ## First operands -/

/-- A token that denotes an expression by itself is an atom. -/
theorem derives_of_toExpr {t : Token} (h : t.toExpr = .ok e) : Derives (n + 1) .atom [t] e := by
  unfold Token.toExpr at h
  split at h
  · next hk =>
    split at h
    · next v hv =>
      cases h
      exact .number hk hv
    · cases h
  · next hk =>
    cases h
    exact .symbol hk
  · next hk =>
    cases h
    exact .string hk
  · cases h

/-- What a form that starts an expression comes to is a first operand. -/
theorem startForm_sound (hn : SoundWithin n) {form : StartForm} (hs : s.Closed)
    (hform : ExprGrammar.opening s.current.kind = some form)
    (h : startForm (exprWithin .standard n) form s = .done e s') :
    ∃ ts, s.Passes ts s' ∧ Operand (n + 1) s'.current ts e := by
  have hstep : s.Passes [s.current] s.advance :=
    s.passes_advance hs fun heq => by rw [heq] at hform; cases hform
  have hclosed := hstep.closed hs
  cases form with
  | literal =>
    rw [startForm, literal, advance_bind] at h
    cases he : s.current.toExpr with
    | ok e' =>
      simp only [he] at h
      obtain ⟨rfl, rfl⟩ := pure_eq_done.1 h
      exact ⟨_, hstep, .atom (derives_of_toExpr he)⟩
    | error cause => simp [he] at h
  | unary =>
    rw [startForm, advance_bind] at h
    obtain ⟨e, s₁, he, h⟩ := bind_eq_done.1 h
    obtain ⟨rfl, rfl⟩ := pure_eq_done.1 h
    obtain ⟨ts, hpass, hts, hk⟩ := hn rfl hclosed he
    obtain ⟨m, hop, hm⟩ := ExprGrammar.opening_unary hform
    exact ⟨_, hstep.trans hpass, .negate hop hm hts hk⟩
  | parenthesised =>
    rw [startForm, advance_bind] at h
    obtain ⟨e, s₁, he, h⟩ := bind_eq_done.1 h
    obtain ⟨closing, s₂, hclose, h⟩ := bind_eq_done.1 h
    obtain ⟨rfl, rfl⟩ := pure_eq_done.1 h
    obtain ⟨ts, hpass, hts, -⟩ := hn rfl hclosed he
    obtain ⟨hc, hpass'⟩ := passes_of_expectOr (hpass.closed hclosed) (by simp) hclose
    have ho := ExprGrammar.opening_parenthesised hform
    exact ⟨_, hstep.trans (hpass.trans hpass'), .atom (.parenthesised ho hc hts)⟩
  | group =>
    obtain ⟨opening, s₁, hopen, h⟩ := bind_eq_done.1 h
    obtain ⟨es, s₂, hlist, h⟩ := bind_eq_done.1 h
    obtain ⟨rfl, rfl⟩ := pure_eq_done.1 h
    obtain ⟨ho, hpass⟩ := passes_of_expectOr hs (by simp) hopen
    obtain ⟨items, us, closing, hpass', hc, hus, hitems, rfl⟩ :=
      exprList_sound hn (hpass.closed hs) hlist
    exact ⟨_, hpass.trans hpass', .atom (.group ho hc hus hitems)⟩

theorem operand_sound (hn : SoundWithin n) (hs : s.Closed)
    (h : operand .expression ExprGrammar.standard (startForm (exprWithin .standard n)) s = .done e s') :
    ∃ ts, s.Passes ts s' ∧ Operand (n + 1) s'.current ts e := by
  rw [operand, current_bind] at h
  cases hform : ExprGrammar.standard.starts s.current.kind with
  | none => simp [hform] at h
  | some form =>
    simp only [hform] at h
    exact startForm_sound hn hs hform h

/-! ## Operators -/

/-- Whatever is read within so many levels at the bound of the access to members is an operand. -/
def MemberSoundWithin (n : Nat) : Prop :=
  ∀ {s s' : Stream} {e : Expr}, s.Closed → exprWithin .standard n .member s = .done e s' →
    ∃ ts, s.Passes ts s' ∧ Operand n s'.current ts e

/-- One operator continues a phrase that is tight enough to be its left operand. -/
theorem continueForm_sound (hn : SoundWithin n) (hmember : MemberSoundWithin n)
    {l l₀ : Layer} {ts : List Token} {left : Expr} {form : ContinueForm} (hs : s.Closed)
    (hb : Layer.ofBound? b = some l) (hleft : Derives (n + 1) l₀ ts left)
    (hp : b < ExprGrammar.standard.power s.current.kind)
    (hreach : ExprGrammar.standard.power s.current.kind ≤ l₀.reach)
    (hform : ExprGrammar.standard.continues s.current.kind = some form)
    (h : continueForm (exprWithin .standard n) form (ExprGrammar.standard.power s.current.kind) left s =
      .done e s') :
    ∃ us l₁, s.Passes us s' ∧ Derives (n + 1) l₁ (ts ++ us) e ∧ l.rank ≤ l₁.rank ∧
      ExprGrammar.standard.power s'.current.kind ≤ l₁.reach := by
  obtain ⟨m, hop, hm⟩ := ExprGrammar.exists_operator hform
  have hstep : s.Passes [s.current] s.advance :=
    s.passes_advance hs fun heq => by rw [heq] at hform; cases hform
  have hclosed := hstep.closed hs
  generalize ExprGrammar.standard.power s.current.kind = p at *
  cases form with
  | assign =>
    obtain ⟨hassign, rfl⟩ := ExprGrammar.operator_assign hm
    rw [continueForm, advance_bind] at h
    obtain ⟨value, s₁, hvalue, h⟩ := bind_eq_done.1 h
    obtain ⟨rfl, rfl⟩ := pure_eq_done.1 h
    obtain ⟨us, hpass, hus, hk⟩ := hn rfl hclosed hvalue
    have hleft' := hleft.loosen (Layer.rank_logical_le hreach)
    exact ⟨_, .assignment, hstep.trans hpass, .assign hop hassign hleft' hus,
      Layer.rank_le_assignment hb hp, hk⟩
  | binary =>
    obtain ⟨lj, l', hjoin, rfl, htighter, hbound⟩ := ExprGrammar.operator_binary hm
    rw [continueForm, advance_bind] at h
    obtain ⟨right, s₁, hright, h⟩ := bind_eq_done.1 h
    obtain ⟨rfl, rfl⟩ := pure_eq_done.1 h
    obtain ⟨us, hpass, hus, hk⟩ := hn hbound hclosed hright
    have hne : lj ≠ .atom := by
      rintro rfl
      cases htighter
    have hleft' := hleft.loosen (Layer.rank_le_of_reach_le hreach hne)
    exact ⟨_, lj, hstep.trans hpass, .join htighter hop hjoin hleft' hus,
      Layer.rank_le_of_bound_lt hb hp, hk⟩
  | construct =>
    obtain ⟨rfl, rfl⟩ := ExprGrammar.operator_construct hm
    cases left with
    | symbol name =>
      obtain ⟨opening, s₁, hopen, h⟩ := bind_eq_done.1 h
      obtain ⟨es, s₂, hlist, h⟩ := bind_eq_done.1 h
      obtain ⟨rfl, rfl⟩ := pure_eq_done.1 h
      obtain ⟨ho, hpass⟩ := passes_of_expectOr hs (by simp) hopen
      obtain ⟨items, us, closing, hpass', hc, hus, hitems, rfl⟩ :=
        exprList_sound hn (hpass.closed hs) hlist
      exact ⟨_, .primary, hpass.trans hpass', .construct ho hc hleft.atom_of_symbol hus hitems,
        Nat.le_succ_of_le (Layer.rank_le_unary hb), ExprGrammar.power_le_member _⟩
    | _ => cases h
  | member =>
    obtain ⟨rfl, rfl⟩ := ExprGrammar.operator_member hm
    rw [continueForm, advance_bind] at h
    obtain ⟨right, s₁, hright, h⟩ := bind_eq_done.1 h
    obtain ⟨rfl, rfl⟩ := pure_eq_done.1 h
    obtain ⟨us, hpass, hus⟩ := hmember hclosed hright
    have hleft' := hleft.loosen (Layer.rank_le_of_reach_le (l := .primary) hreach (by decide))
    cases hus with
    | atom hus =>
      exact ⟨_, .primary, hstep.trans hpass, .member hop hleft' hus,
        Nat.le_succ_of_le (Layer.rank_le_unary hb), ExprGrammar.power_le_member _⟩
    | negate hop' hm' hus hk =>
      exact ⟨_, .unary, hstep.trans hpass, .memberNegate hop hop' hm' hleft' hus,
        Layer.rank_le_unary hb, hk⟩

/-- All operators that continue a phrase keep it one. -/
theorem extend_sound (hn : SoundWithin n) (hmember : MemberSoundWithin n) {l : Layer} {left : Expr}
    (hb : Layer.ofBound? b = some l)
    (h : extend .expression ExprGrammar.standard (continueForm (exprWithin .standard n)) b left s =
      .done e s') :
    ∀ (l₀ : Layer) (ts : List Token), s.Closed → Derives (n + 1) l₀ ts left → l.rank ≤ l₀.rank →
      ExprGrammar.standard.power s.current.kind ≤ l₀.reach →
      ∃ us, s.Passes us s' ∧ Derives (n + 1) l (ts ++ us) e ∧
        ExprGrammar.standard.power s'.current.kind ≤ b := by
  refine extend_induct (fun hle => ?_) (fun left s form left' s₁ hgt hform hmore ih => ?_) h
  · intro l₀ ts _ hleft hl _
    exact ⟨[], .refl s', by rw [List.append_nil]; exact hleft.loosen hl, hle⟩
  · intro l₀ ts hs hleft hl hreach
    obtain ⟨us, l₁, hpass, hleft', hl', hreach'⟩ :=
      continueForm_sound hn hmember (s := s.record _) hs hb hleft (Nat.lt_of_not_le hgt) hreach hform
        hmore
    obtain ⟨us', hpass', he, hk⟩ := ih _ _ (hpass.of_record.closed hs) hleft' hl' hreach'
    exact ⟨us ++ us', hpass.of_record.trans hpass', by rwa [← List.append_assoc], hk⟩

theorem exprWithin_sound (n : Nat) : SoundWithin n ∧ MemberSoundWithin n := by
  induction n with
  | zero =>
    constructor
    · intro b l s s' e _ _ h
      cases h
    · intro s s' e _ h
      cases h
  | succ n ih =>
    obtain ⟨hn, hmember⟩ := ih
    constructor
    · intro b l s s' e hb hs h
      obtain ⟨left, s₁, hoperand, h⟩ := bind_eq_done.1 h
      obtain ⟨ts, hpass, hts⟩ := operand_sound hn hs hoperand
      -- an operand is a phrase of the layer below which its first token cannot be continued
      obtain ⟨l₀, hleft, hl, hreach⟩ : ∃ l₀ : Layer, Derives (n + 1) l₀ ts left ∧
          l.rank ≤ l₀.rank ∧ ExprGrammar.standard.power s₁.current.kind ≤ l₀.reach := by
        cases hts with
        | atom hts =>
          exact ⟨.atom, hts, Nat.le_trans (Layer.rank_le_unary hb) (by decide),
            ExprGrammar.power_le_member _⟩
        | negate hop hm hts hk => exact ⟨.unary, .negate hop hm hts, Layer.rank_le_unary hb, hk⟩
      obtain ⟨us, hpass', he, hk⟩ :=
        extend_sound hn hmember hb h l₀ ts (hpass.closed hs) hleft hl hreach
      exact ⟨ts ++ us, hpass.trans hpass', he, hk⟩
    · intro s s' e hs h
      obtain ⟨left, s₁, hoperand, h⟩ := bind_eq_done.1 h
      rw [extend_over (ExprGrammar.power_le_member _)] at h
      cases h
      exact operand_sound hn hs hoperand

/-! ## Exactness -/

/-- Whatever levels of nesting are open, an expression is read from exactly the tokens that the grammar
derives it from in the layer of the bound, provided that the next token does not bind more tightly than
the bound and that no more levels are opened than are left. -/
theorem readExpr_reads_iff {l : Layer} {ts rest : List Token} {k : Token}
    (hb : Layer.ofBound? b = some l) (hs : s.rest = ts ++ k :: rest) (hclosed : s.Closed) (e : Expr) :
    (readExpr .standard b).Reads s ts e ↔
      ∃ n, Derives n l ts e ∧ ExprGrammar.standard.power k.kind ≤ b ∧ (∀ t ∈ ts, t.Readable) ∧
        s.depth + n ≤ maxNesting := by
  unfold Reads
  rw [readExpr_eq]
  constructor
  · rintro ⟨s', hrun, hpass⟩
    obtain ⟨ts', hpass', hderives, hk⟩ := (exprWithin_sound _).1 hb hclosed hrun
    obtain rfl : ts' = ts := List.append_cancel_right (hpass'.rest.symm.trans hpass.rest)
    refine ⟨s.room, hderives, ?_, hderives.readable, ?_⟩
    · rwa [← Stream.current_of_rest (hpass.rest_eq hs)]
    · have hpos := hderives.pos
      unfold Stream.room at hpos ⊢
      omega
  · rintro ⟨n, hderives, hk, -, hn⟩
    exact (hderives.mono (Nat.le_sub_of_add_le' hn)).reads hb hs hk

/-- `a.-f(x,)` before a semicolon is read when four levels are left. -/
theorem readExpr_reads_negated_member :
    (readExpr .standard .lowest).Reads
      ⟨0, ⟨.identifier, "a"⟩, [⟨.mark .dot, "."⟩, ⟨.mark .dash, "-"⟩, ⟨.identifier, "f"⟩,
        ⟨.mark .openParen, "("⟩, ⟨.identifier, "x"⟩, ⟨.mark .comma, ","⟩, ⟨.mark .closeParen, ")"⟩,
        ⟨.mark .semicolon, ";"⟩, .endOfInput], 9, 252, [], rfl⟩
      [⟨.identifier, "a"⟩, ⟨.mark .dot, "."⟩, ⟨.mark .dash, "-"⟩, ⟨.identifier, "f"⟩,
        ⟨.mark .openParen, "("⟩, ⟨.identifier, "x"⟩, ⟨.mark .comma, ","⟩, ⟨.mark .closeParen, ")"⟩]
      (.binary ⟨.mark .dot, "."⟩ (.symbol "a")
        (.unary ⟨.mark .dash, "-"⟩ (.construct "f" [.symbol "x"]))) := by
  have name {n : Nat} (x : String) : Derives (n + 1) .atom [⟨.identifier, x⟩] (.symbol x) :=
    .symbol rfl
  have call : Derives 2 .primary
      ([⟨.identifier, "f"⟩] ++ ⟨.mark .openParen, "("⟩ ::
        ([⟨.identifier, "x"⟩, ⟨.mark .comma, ","⟩] ++ [⟨.mark .closeParen, ")"⟩]))
      (.construct "f" ([(([⟨.identifier, "x"⟩] : List Token), Expr.symbol "x")].map Prod.snd)) :=
    .construct rfl rfl (name "f") (.comma rfl .nil)
      (by simpa using (name "x").loosen (l := .assignment) (by decide))
  have phrase : Derives 4 .unary
      ([⟨.identifier, "a"⟩] ++ ⟨.mark .dot, "."⟩ :: ⟨.mark .dash, "-"⟩ :: _) (.binary _ _ _) :=
    .memberNegate rfl rfl (by decide) ((name "a").loosen (by decide)) (call.loosen (by decide))
  refine (readExpr_reads_iff rfl rfl ?_ _).2
    ⟨4, phrase.loosen (by decide), by decide, phrase.readable, by decide⟩
  exact (rfl : Token.endOfInput.kind = .endOfInput)

end Parse

end ScriptFront
