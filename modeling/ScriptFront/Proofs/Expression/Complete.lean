import ScriptFront.Proofs.Expression.Grammar
import ScriptFront.Proofs.Nesting

/-!
# Phrases of the grammar are read

Whatever the grammar derives, the reader of expressions reads. The induction runs over derivations, and
a left operand is read before it is known that an operator follows; so what is proved of a phrase is
that the reader comes to its tree and then goes on from there (`Parse.Climbs`). The reader stops there
if the next token does not bind more tightly than the bound, and takes the tree for a left operand
otherwise.

Two powers belong to each layer: at bounds up to `Layer.bound` all operators of its phrases are taken,
and before tokens up to `Layer.reach` its phrases are whole operands.
-/

namespace ScriptFront

namespace Power

theorem le_trans {p q r : Power} (h : p ≤ q) (h' : q ≤ r) : p ≤ r := Nat.le_trans h h'

theorem lt_of_le_of_lt {p q r : Power} (h : p ≤ q) (h' : q < r) : p < r := Nat.lt_of_le_of_lt h h'

end Power

namespace Layer

/-- The tightest bound at which phrases of the layer are read to their end. -/
def bound : Layer → Power
  | assignment => .comma
  | logical => .assignment
  | relational => .logical
  | additive => .relational
  | multiplicative => .additive
  | unary | primary => .unary
  | atom => .primary

/-- The tightest power of a token that can follow a phrase of the layer and not break it up. -/
def reach : Layer → Power
  | assignment => .comma
  | logical => .logical
  | relational => .relational
  | additive => .additive
  | multiplicative => .multiplicative
  | unary => .unary
  | primary | atom => .member

variable {l l' : Layer}

theorem bound_le_of_tighter (h : l.tighter? = some l') : l.bound ≤ l'.bound := by
  cases l <;> cases h <;> decide

theorem reach_le_of_tighter (h : l.tighter? = some l') : l.reach ≤ l'.reach := by
  cases l <;> cases h <;> decide

/-- A layer's own operators are binary ones of the power that the layer reaches to. They bind more
tightly than the layer's bound, and the right operands they bind are phrases of the next layer. -/
theorem operator_of_joins {m : Mark} (h : m ∈ l.joins) (hl : l.tighter? = some l') :
    ExprGrammar.operator m = some (l.reach, .binary) ∧ l.bound < l.reach ∧ l.reach ≤ l'.bound := by
  cases l <;> cases hl <;> simp only [joins, List.mem_cons, List.not_mem_nil, or_false] at h
  · rcases h with rfl | rfl | rfl <;> decide
  · rcases h with rfl | rfl | rfl | rfl | rfl | rfl <;> decide
  · rcases h with rfl | rfl <;> decide
  · rcases h with rfl | rfl | rfl <;> decide

end Layer

theorem ExprGrammar.operator_of_assigning {m : Mark} (h : m ∈ Mark.assigning) :
    operator m = some (.assignment, .assign) := by
  simp only [Mark.assigning, List.mem_cons, List.not_mem_nil, or_false] at h
  rcases h with rfl | rfl | rfl <;> rfl

theorem ExprGrammar.opening_of_negating {m : Mark} (h : m ∈ Mark.negating) :
    opening (.mark m) = some .unary := by
  simp only [Mark.negating, List.mem_cons, List.not_mem_nil, or_false] at h
  rcases h with rfl | rfl <;> rfl

theorem ExprGrammar.power_eq {k : Kind} {m : Mark} {p : Power} {form : ContinueForm}
    (hk : k = .mark m) (h : operator m = some (p, form)) : standard.power k = p := by
  subst hk
  simp [standard, h]

theorem ExprGrammar.continues_eq {k : Kind} {m : Mark} {p : Power} {form : ContinueForm}
    (hk : k = .mark m) (h : operator m = some (p, form)) : standard.continues k = some form := by
  subst hk
  simp [standard, h]

/-- No token binds more tightly than the access to a member. -/
theorem ExprGrammar.power_le_member (k : Kind) : standard.power k ≤ .member := by
  cases k with
  | mark m => cases m <;> decide
  | _ => exact Nat.zero_le _

namespace Parse

variable {n : Nat} {s : Stream} {b : Power} {ts us : List Token} {e : Expr}

/-- At a bound the reader of expressions comes from `s` to the tree `e` after the tokens `ts`, and goes
on from there. -/
def Climbs (n : Nat) (b : Power) (s : Stream) (ts : List Token) (e : Expr) : Prop :=
  ∃ s', exprWithin .standard n b s =
      extend .expression ExprGrammar.standard (continueForm (exprWithin .standard (n - 1))) b e s' ∧
    s.Passes ts s'

/-- The reader stops at a token that does not bind more tightly than the bound. -/
theorem Climbs.reads {k : Token} {rest : List Token} (h : Climbs n b s ts e)
    (hs : s.rest = ts ++ k :: rest) (hk : ExprGrammar.standard.power k.kind ≤ b) :
    (exprWithin .standard n b).Reads s ts e := by
  obtain ⟨s', heq, hpass⟩ := h
  refine ⟨s', ?_, hpass⟩
  rw [heq]
  apply extend_over
  rw [Stream.current_of_rest (hpass.rest_eq hs)]
  exact hk

/-- A first operand is read in the form that the token in front starts. -/
theorem Climbs.start {t : Token} {form : StartForm} (hs : s.rest = t :: us)
    (hform : ExprGrammar.opening t.kind = some form)
    (h : (startForm (exprWithin .standard n) form).Reads s ts e) : Climbs (n + 1) b s ts e := by
  obtain ⟨s', hrun, hpass⟩ := h
  refine ⟨s', ?_, hpass⟩
  have hoperand : operand .expression ExprGrammar.standard (startForm (exprWithin .standard n)) s =
      .done e s' := by
    have hform : ExprGrammar.standard.starts s.current.kind = some form := by
      rw [Stream.current_of_rest hs]
      exact hform
    rw [operand, current_bind]
    simp only [hform]
    exact hrun
  rw [exprWithin, climb, bind_done hoperand]
  rfl

/-- The tree so far is continued in the form of an operator that binds more tightly than the bound. -/
theorem Climbs.extend {op : Token} {m : Mark} {p : Power} {form : ContinueForm} {a : Expr}
    {rest : List Token} (h : Climbs (n + 1) b s ts a) (hs : s.rest = ts ++ op :: rest)
    (hop : op.kind = .mark m) (hm : ExprGrammar.operator m = some (p, form)) (hb : b < p)
    (hmore : ∀ s', s'.rest = op :: rest →
      (continueForm (exprWithin .standard n) form p a).Reads s' (op :: us) e) :
    Climbs (n + 1) b s (ts ++ op :: us) e := by
  obtain ⟨s₁, heq, hpass⟩ := h
  have hrest := hpass.rest_eq hs
  have hkind : s₁.current.kind = .mark m := by rw [Stream.current_of_rest hrest, hop]
  have hpower := ExprGrammar.power_eq hkind hm
  obtain ⟨s₂, hrun, hpass'⟩ := hmore (s₁.record (.continued .expression s₁.current.kind p)) hrest
  refine ⟨s₂, ?_, hpass.trans hpass'.of_record⟩
  rw [heq]
  refine extend_again ?_ (ExprGrammar.continues_eq hkind hm) ?_
    (hpass'.of_record.remaining_lt (List.cons_ne_nil _ _))
  · rw [hpower]
    exact Nat.not_le_of_lt hb
  · rw [hpower]
    exact hrun

/-! ## Lists -/

section Lists

variable {m : Mark} {k t : Token} {item us rest : List Token} {acc : List Expr}
  {expr : Power → Parse Expr}

/-- An item that no comma follows is the last. -/
theorem exprItem_reads_last (hs : s.rest = t :: (item ++ k :: rest)) (ht : t.kind ≠ .mark m)
    (hk : k.kind ≠ .mark .comma) (h : (expr .comma).Reads s (t :: item) e) :
    (exprItem expr m acc).Reads s (t :: item) (.over (e :: acc)) := by
  refine Reads.kind_bind ?_
  rw [if_neg (by rwa [Stream.current_of_rest hs])]
  rw [← List.append_nil (t :: item)]
  refine h.bind fun s' hpass => Reads.kind_bind ?_
  rw [if_neg (by rwa [Stream.current_of_rest (hpass.rest_eq hs)])]
  exact .pure _ s'

/-- After an item and a comma the list goes on. -/
theorem exprItem_reads_comma (hs : s.rest = t :: (item ++ k :: rest)) (hrest : rest ≠ [])
    (ht : t.kind ≠ .mark m) (hk : k.kind = .mark .comma) (h : (expr .comma).Reads s (t :: item) e) :
    (exprItem expr m acc).Reads s (t :: item ++ [k]) (.again (e :: acc)) := by
  refine Reads.kind_bind ?_
  rw [if_neg (by rwa [Stream.current_of_rest hs])]
  refine h.bind fun s' hpass => Reads.kind_bind ?_
  have hs' := hpass.rest_eq hs
  rw [if_pos (by rw [Stream.current_of_rest hs', hk])]
  exact Reads.advance_bind hs' hrest fun s' _ => .pure _ s'

/-- The items of a list are read one by one up to the mark that closes it. -/
theorem loop_exprItem_reads {closing : Token} {items : List (List Token × Expr)}
    (hm : m = .closeParen ∨ m = .closeBracket) (hc : closing.kind = .mark m)
    (hus : Separated (items.map Prod.fst) us)
    (hheads : ∀ item ∈ items, ∃ t ts, item.1 = t :: ts ∧ (ExprGrammar.opening t.kind).isSome)
    (hreads : ∀ item ∈ items, ∀ s k rest, s.rest = item.1 ++ k :: rest →
      ExprGrammar.standard.power k.kind ≤ .comma → (expr .comma).Reads s item.1 item.2)
    (hs : s.rest = us ++ closing :: rest) :
    (loop (exprItem expr m) acc).Reads s us ((items.map Prod.snd).reverse ++ acc) := by
  have hclosing : ExprGrammar.standard.power closing.kind ≤ .comma := by
    rw [hc]
    rcases hm with rfl | rfl <;> decide
  induction items generalizing s us acc with
  | nil =>
    cases hus
    refine Reads.loop_over (Reads.kind_bind ?_)
    rw [if_pos (by rw [Stream.current_of_rest hs, hc])]
    exact .pure _ s
  | cons item items ih =>
    obtain ⟨⟨t, ts, hitem, ht⟩, hheads'⟩ := List.forall_mem_cons.1 hheads
    obtain ⟨hread, hreads'⟩ := List.forall_mem_cons.1 hreads
    -- the token in front starts an expression, so the list is not closed yet
    have hopen : t.kind ≠ .mark m := by
      intro heq
      rw [heq] at ht
      rcases hm with rfl | rfl <;> cases ht
    obtain ⟨item, e⟩ := item
    simp only at hitem hread
    subst hitem
    rw [List.map_cons, List.reverse_cons, List.append_assoc]
    rw [List.map_cons] at hus
    generalize hparts : items.map Prod.fst = parts at hus
    cases hus with
    | last =>
      obtain rfl := List.map_eq_nil_iff.1 hparts
      have hk : closing.kind ≠ .mark .comma := by
        rw [hc]
        rcases hm with rfl | rfl <;> decide
      exact Reads.loop_over (exprItem_reads_last hs hopen hk (hread s _ _ hs hclosing))
    | @comma _ us _ c hk hus =>
      have hs' : s.rest = t :: (ts ++ c :: (us ++ closing :: rest)) := by simp [hs]
      have hcomma : ExprGrammar.standard.power c.kind ≤ .comma := by
        rw [hk]
        decide
      have hitem : (exprItem expr m acc).Reads s (t :: ts ++ [c]) (.again (e :: acc)) :=
        exprItem_reads_comma hs' (by simp) hopen hk (hread s _ _ hs' hcomma)
      show Reads _ s (t :: ts ++ c :: us) _
      rw [show t :: ts ++ c :: us = (t :: ts ++ [c]) ++ us by simp]
      refine hitem.loop_again (by simp) fun s' hpass => ?_
      exact ih (hparts ▸ hus) hheads' hreads' (hpass.rest_eq (by simp [hs]))

/-- A list is read with the mark that closes it. -/
theorem exprList_reads {closing : Token} {items : List (List Token × Expr)}
    (hm : m = .closeParen ∨ m = .closeBracket) (hc : closing.kind = .mark m)
    (hus : Separated (items.map Prod.fst) us)
    (hheads : ∀ item ∈ items, ∃ t ts, item.1 = t :: ts ∧ (ExprGrammar.opening t.kind).isSome)
    (hreads : ∀ item ∈ items, ∀ s k rest, s.rest = item.1 ++ k :: rest →
      ExprGrammar.standard.power k.kind ≤ .comma → (expr .comma).Reads s item.1 item.2)
    (hs : s.rest = us ++ closing :: k :: rest) :
    (exprList expr m).Reads s (us ++ [closing]) (items.map Prod.snd) := by
  refine (loop_exprItem_reads hm hc hus hheads hreads hs).bind fun s' hpass => ?_
  refine Reads.expectOr_bind (hpass.rest_eq hs) (by simp) hc fun s' _ => ?_
  rw [List.append_nil, List.reverse_reverse]
  exact .pure _ s'

end Lists

end Parse

open Parse

namespace Derives

variable {n : Nat} {l : Layer} {ts : List Token} {e : Expr}

/-- The reader comes to the tree of a phrase before a token that does not break the phrase up, at a
bound below all operators of the phrase. -/
theorem climbs (h : Derives n l ts e) :
    ∀ {s : Stream} {k : Token} {rest : List Token} {b : Power}, s.rest = ts ++ k :: rest →
      ExprGrammar.standard.power k.kind ≤ l.reach → b ≤ l.bound → Climbs n b s ts e := by
  induction h with
  | lift hl _ ih =>
    intro s k rest b hs hk hb
    exact ih hs (Power.le_trans hk (Layer.reach_le_of_tighter hl))
      (Power.le_trans hb (Layer.bound_le_of_tighter hl))
  | assign hop hm _ _ ihl ihr =>
    intro s k rest b hs hk hb
    rw [List.append_assoc] at hs
    have hform := ExprGrammar.operator_of_assigning hm
    have hleft := ihl (b := b) hs (by rw [ExprGrammar.power_eq hop hform]; decide)
      (Power.le_trans hb (by decide))
    refine hleft.extend hs hop hform (Power.lt_of_le_of_lt hb (by decide)) fun s' hs' => ?_
    refine Reads.advance_bind hs' (by simp) fun s' hs' => ?_
    exact ((ihr hs' hk (by decide)).reads hs' hk).bind_pure _
  | join hl hop hm _ _ ihl ihr =>
    intro s k rest b hs hk hb
    rw [List.append_assoc] at hs
    obtain ⟨hform, hlt, hle⟩ := Layer.operator_of_joins hm hl
    have hleft := ihl (b := b) hs (by rw [ExprGrammar.power_eq hop hform]; exact Nat.le_refl _) hb
    refine hleft.extend hs hop hform (Power.lt_of_le_of_lt hb hlt) fun s' hs' => ?_
    refine Reads.advance_bind hs' (by simp) fun s' hs' => ?_
    have hright := ihr hs' (Power.le_trans hk (Layer.reach_le_of_tighter hl)) hle
    exact (hright.reads hs' hk).bind_pure _
  | negate hop hm _ ih =>
    intro s k rest b hs hk hb
    refine Climbs.start hs (hop ▸ ExprGrammar.opening_of_negating hm) ?_
    refine Reads.advance_bind hs (by simp) fun s' hs' => ?_
    exact ((ih hs' hk (by decide)).reads hs' hk).bind_pure _
  | memberNegate hdot hop hm _ _ ihl ihr =>
    intro s k rest b hs hk hb
    rw [List.append_assoc] at hs
    have hform : ExprGrammar.operator .dot = some (.member, .member) := rfl
    have hleft := ihl (b := b) hs (by rw [ExprGrammar.power_eq hdot hform]; decide) hb
    refine hleft.extend hs hdot hform (Power.lt_of_le_of_lt hb (by decide)) fun s' hs' => ?_
    refine Reads.advance_bind hs' (by simp) fun s' hs' => ?_
    have hright := Climbs.start (b := .member) hs' (hop ▸ ExprGrammar.opening_of_negating hm)
      (Reads.advance_bind hs' (by simp) fun s' hs' =>
        ((ihr hs' hk (by decide)).reads hs' hk).bind_pure _)
    exact (hright.reads hs' (ExprGrammar.power_le_member _)).bind_pure _
  | member hdot _ _ ihl ihr =>
    intro s k rest b hs hk hb
    rw [List.append_assoc] at hs
    have hform : ExprGrammar.operator .dot = some (.member, .member) := rfl
    have hleft := ihl (b := b) hs (by rw [ExprGrammar.power_eq hdot hform]; decide) hb
    refine hleft.extend hs hdot hform (Power.lt_of_le_of_lt hb (by decide)) fun s' hs' => ?_
    refine Reads.advance_bind hs' (by simp) fun s' hs' => ?_
    exact ((ihr hs' hk (by decide)).reads hs' hk).bind_pure _
  | construct ho hc _ hus hitems iht ihi =>
    intro s k rest b hs hk hb
    simp only [List.append_assoc, List.cons_append, List.nil_append] at hs
    have hform : ExprGrammar.operator .openParen = some (.call, .construct) := rfl
    have htarget := iht (b := b) hs (by rw [ExprGrammar.power_eq ho hform]; decide)
      (Power.le_trans hb (by decide))
    refine htarget.extend hs ho hform (Power.lt_of_le_of_lt hb (by decide)) fun s' hs' => ?_
    refine Reads.expectOr_bind hs' (by simp) ho fun s' hs' => Reads.bind_pure _ ?_
    refine exprList_reads (.inl rfl) hc hus (fun item hitem => (hitems item hitem).exists_head)
      (fun item hitem s k rest hs hk => ?_) hs'
    exact (ihi item hitem hs hk (by decide)).reads hs hk
  | number hk hv =>
    intro s k rest b hs _ hb
    refine Climbs.start hs (by rw [hk]; rfl) (Reads.advance_bind hs (by simp) fun s' _ => ?_)
    simp only [Token.toExpr, hk, hv]
    exact .pure _ s'
  | string hk =>
    intro s k rest b hs _ hb
    refine Climbs.start hs (by rw [hk]; rfl) (Reads.advance_bind hs (by simp) fun s' _ => ?_)
    simp only [Token.toExpr, hk]
    exact .pure _ s'
  | symbol hk =>
    intro s k rest b hs _ hb
    refine Climbs.start hs (by rw [hk]; rfl) (Reads.advance_bind hs (by simp) fun s' _ => ?_)
    simp only [Token.toExpr, hk]
    exact .pure _ s'
  | parenthesised ho hc _ ih =>
    intro s k rest b hs _ hb
    simp only [List.append_assoc, List.cons_append, List.nil_append] at hs
    refine Climbs.start hs (by rw [ho]; rfl) ?_
    refine Reads.advance_bind hs (by simp) fun s' hs' => ?_
    have hpower : ExprGrammar.standard.power (.mark .closeParen) ≤ .lowest := by decide
    have hinner := ih (b := .lowest) hs' (by rw [hc]; decide) (by decide)
    refine (hinner.reads hs' (hc ▸ hpower)).bind fun s' hpass => ?_
    exact Reads.expectOr_bind (hpass.rest_eq hs') (by simp) hc fun s' _ => .pure _ s'
  | group ho hc hus hitems ihi =>
    intro s k rest b hs _ hb
    simp only [List.append_assoc, List.cons_append, List.nil_append] at hs
    refine Climbs.start hs (by rw [ho]; rfl) ?_
    refine Reads.expectOr_bind hs (by simp) ho fun s' hs' => Reads.bind_pure _ ?_
    refine exprList_reads (.inr rfl) hc hus (fun item hitem => (hitems item hitem).exists_head)
      (fun item hitem s k rest hs hk => ?_) hs'
    exact (ihi item hitem hs hk (by decide)).reads hs hk

/-- A phrase of the layer that belongs to a bound is read at that bound. -/
theorem reads {s : Stream} {k : Token} {rest : List Token} {b : Power} (h : Derives n l ts e)
    (hb : Layer.ofBound? b = some l) (hs : s.rest = ts ++ k :: rest)
    (hk : ExprGrammar.standard.power k.kind ≤ b) : (exprWithin .standard n b).Reads s ts e := by
  have hpowers : b ≤ l.reach ∧ b ≤ l.bound := by cases b <;> cases hb <;> decide
  exact (h.climbs hs (Power.le_trans hk hpowers.1) hpowers.2).reads hs hk

end Derives

end ScriptFront
