import ScriptFront.Proofs.Faults
import ScriptFront.Proofs.Program.Ending
import ScriptFront.Proofs.Program.Nodes

/-!
# Equality of what is read

Trees are compared with their numbers compared as numbers. That is not the equality of trees: what is not
a number equals nothing, itself included, and the two zeros are equal. But a numeral is read as a number
without a sign (`Double.Unsigned`), and between such numbers the two equalities are the same. So a tree
with no other numbers in it is equal to itself and to nothing else, from expressions up to programs, and
every answer for a source text is such a tree or a fault (`parseSource_same_iff`).
-/

namespace ScriptFront

/-! ## Numbers -/

/-- The word is that of a number, finite or infinite, without a sign. -/
structure Double.Unsigned (d : Double) : Prop where
  isNaN : d.isNaN = false
  negative : d.negative = false

theorem Double.Unsigned.same_iff {d e : Double} (hd : d.Unsigned) (he : e.Unsigned) :
    d.same e = true ↔ d = e := by
  simp only [same, hd.isNaN, he.isNaN, Bool.not_false, Bool.true_and, Bool.or_eq_true,
    Bool.and_eq_true, beq_iff_eq]
  constructor
  · rintro (heq | ⟨hzero, hzero'⟩)
    · exact heq
    · -- of the two zeros only one has no sign
      exact Double.ext (hd.negative.trans he.negative.symm) (hzero.trans hzero'.symm)
  · exact .inl

/-- Without the condition neither side need follow from the other. -/
example : (Double.nan false).same (.nan false) = false ∧ Double.zero.same Double.zero.neg = true := by
  decide

/-- A numeral has no sign to be read, and what is rounded stops at the infinite word. -/
theorem IsNumeral.unsigned {lexeme : String} {v : Double} (h : IsNumeral lexeme.toList)
    (hv : Double.read? lexeme = some v) : v.Unsigned := by
  obtain ⟨d, hd⟩ := h.exists_read?
  rw [hd, Option.some.injEq] at hv
  subst hv
  exact ⟨decide_eq_false (Nat.not_lt.2 d.magnitude_le), rfl⟩

/-! ## Trees -/

namespace Expr

/-- The node is no number, or one without a sign. -/
def Definite : Expr → Prop
  | number v => v.Unsigned
  | _ => True

mutual

theorem same_iff_eq {a b : Expr} (ha : ∀ node ∈ a.nodes, node.Definite)
    (hb : ∀ node ∈ b.nodes, node.Definite) : a.same b = true ↔ a = b := by
  cases a with
  | number v =>
    cases b with
    | number w =>
      have hv : v.Unsigned := ha _ List.mem_cons_self
      have hw : w.Unsigned := hb _ List.mem_cons_self
      rw [same, hv.same_iff hw, number.injEq]
    | _ => simp [same]
  | string text => cases b <;> simp [same]
  | symbol name => cases b <;> simp [same]
  | unary op e =>
    cases b with
    | unary op' e' =>
      have he := same_iff_eq (List.forall_mem_cons.1 ha).2 (List.forall_mem_cons.1 hb).2
      simp [same, he]
    | _ => simp [same]
  | binary op l r =>
    cases b with
    | binary op' l' r' =>
      simp only [nodes, List.forall_mem_cons, List.forall_mem_append] at ha hb
      have hl := same_iff_eq ha.2.1 hb.2.1
      have hr := same_iff_eq ha.2.2 hb.2.2
      simp [same, hl, hr, and_assoc]
    | _ => simp [same]
  | assign op l r =>
    cases b with
    | assign op' l' r' =>
      simp only [nodes, List.forall_mem_cons, List.forall_mem_append] at ha hb
      have hl := same_iff_eq ha.2.1 hb.2.1
      have hr := same_iff_eq ha.2.2 hb.2.2
      simp [same, hl, hr, and_assoc]
    | _ => simp [same]
  | construct name es =>
    cases b with
    | construct name' es' =>
      have hes := sameAll_iff_eq (List.forall_mem_cons.1 ha).2 (List.forall_mem_cons.1 hb).2
      simp [same, hes]
    | _ => simp [same]
  | group es =>
    cases b with
    | group es' =>
      have hes := sameAll_iff_eq (List.forall_mem_cons.1 ha).2 (List.forall_mem_cons.1 hb).2
      simp [same, hes]
    | _ => simp [same]

theorem sameAll_iff_eq {as bs : List Expr} (ha : ∀ node ∈ nodesAll as, node.Definite)
    (hb : ∀ node ∈ nodesAll bs, node.Definite) : sameAll as bs = true ↔ as = bs := by
  cases as with
  | nil => cases bs <;> simp [sameAll]
  | cons a as =>
    cases bs with
    | nil => simp [sameAll]
    | cons b bs =>
      rw [nodesAll, List.forall_mem_append] at ha hb
      have hhead := same_iff_eq ha.1 hb.1
      have htail := sameAll_iff_eq ha.2 hb.2
      simp [sameAll, hhead, htail]

end

end Expr

theorem Binding.same_iff_eq {a b : Binding}
    (ha : ∀ e ∈ a.value?, ∀ node ∈ e.nodes, node.Definite)
    (hb : ∀ e ∈ b.value?, ∀ node ∈ e.nodes, node.Definite) : a.same b = true ↔ a = b := by
  cases a with
  | typed type => cases b <;> simp [same]
  | inferred value =>
    cases b with
    | inferred value' =>
      have hvalue := Expr.same_iff_eq (ha _ rfl) (hb _ rfl)
      simp [same, hvalue]
    | _ => simp [same]
  | annotated type value =>
    cases b with
    | annotated type' value' =>
      have hvalue := Expr.same_iff_eq (ha _ rfl) (hb _ rfl)
      simp [same, hvalue]
    | _ => simp [same]

namespace Stmt

/-- Every number in what the statement holds itself is one without a sign. -/
def Definite (stmt : Stmt) : Prop := ∀ e ∈ stmt.values, ∀ node ∈ e.nodes, node.Definite

mutual

theorem same_iff_eq {a b : Stmt} (ha : ∀ node ∈ a.nodes, node.Definite)
    (hb : ∀ node ∈ b.nodes, node.Definite) : a.same b = true ↔ a = b := by
  cases a with
  | block body =>
    cases b with
    | block body' =>
      have hbody := sameAll_iff_eq (List.forall_mem_cons.1 ha).2 (List.forall_mem_cons.1 hb).2
      simp [same, hbody]
    | _ => simp [same]
  | expression e =>
    cases b with
    | expression e' =>
      have he := Expr.same_iff_eq (ha _ List.mem_cons_self _ List.mem_cons_self)
        (hb _ List.mem_cons_self _ List.mem_cons_self)
      simp [same, he]
    | _ => simp [same]
  | declaration name constant binding =>
    cases b with
    | declaration name' constant' binding' =>
      have ha : (declaration name constant binding).Definite := ha _ List.mem_cons_self
      have hb : (declaration name' constant' binding').Definite := hb _ List.mem_cons_self
      simp only [Definite, values, Option.mem_toList] at ha hb
      have hbinding := Binding.same_iff_eq ha hb
      simp [same, hbinding, and_assoc]
    | _ => simp [same]
  | object name properties => cases b <;> simp [same]

theorem sameAll_iff_eq {as bs : List Stmt} (ha : ∀ node ∈ nodesAll as, node.Definite)
    (hb : ∀ node ∈ nodesAll bs, node.Definite) : sameAll as bs = true ↔ as = bs := by
  cases as with
  | nil => cases bs <;> simp [sameAll]
  | cons a as =>
    cases bs with
    | nil => simp [sameAll]
    | cons b bs =>
      rw [nodesAll, List.forall_mem_append] at ha hb
      have hhead := same_iff_eq ha.1 hb.1
      have htail := sameAll_iff_eq ha.2 hb.2
      simp [sameAll, hhead, htail]

end

end Stmt

namespace Program

/-- Every number in the program is one without a sign. -/
def Definite (p : Program) : Prop := ∀ node ∈ p.exprs, node.Definite

theorem Definite.stmts {p : Program} (h : p.Definite) : ∀ stmt ∈ p.stmts, stmt.Definite := by
  intro stmt hstmt
  rw [Definite, exprs, List.forall_mem_flatMap] at h
  exact Expr.forall_mem_nodesAll.1 (h stmt hstmt)

theorem Definite.same_iff_eq {p q : Program} (hp : p.Definite) (hq : q.Definite) :
    p.same q = true ↔ p = q := by
  rw [same, Stmt.sameAll_iff_eq hp.stmts hq.stmts, Program.mk.injEq]

end Program

/-- Comparing answers is equality where comparing their values is. -/
theorem Answer.same_iff_eq {α : Type} {eq : α → α → Bool} {r r' : Answer α}
    (h : ∀ a b, r = .ok a → r' = .ok b → (eq a b = true ↔ a = b)) : r.same eq r' = true ↔ r = r' := by
  cases r with
  | ok a =>
    cases r' with
    | ok b => rw [same, h a b rfl rfl, ok.injEq]
    | _ => simp [same]
  | fault cause => cases r' <;> simp [same]
  | endless => cases r' <;> simp [same]

/-! ## Answers for a source text -/

theorem Token.WellFormed.isNumeral {t : Token} (h : t.WellFormed) (hk : t.kind = .number) :
    IsNumeral t.lexeme.toList := by
  cases h with
  | number h => exact h
  | _ => cases hk

/-- Over tokens such as a text gives, a well formed node is a definite one. -/
theorem Expr.WellFormed.definite {e : Expr} (h : e.WellFormed Token.WellFormed) : e.Definite := by
  cases e with
  | number v =>
    obtain ⟨lexeme, htoken, hread⟩ := h
    exact (htoken.isNumeral rfl).unsigned hread
  | _ => trivial

theorem definite_of_parseSource {source : String} {p : Program} (h : parseSource source = .ok p) :
    p.Definite := by
  unfold parseSource at h
  split at h
  · next tokens htokens =>
    obtain ⟨-, rfl⟩ := tokenize_eq_ok_iff.1 htokens
    obtain ⟨ts, k, rest, heq, hk, hderives⟩ := derivesProgram_of_parse_ok h
    -- the end token is the first one, so the program is derived from all the others
    obtain rfl := eq_of_append_end Scan.kind_ne_endOfInput hk heq
    have hwellFormed := hderives.wellFormed (Scan.wellFormed_of_mem_tokens _)
    intro node hnode
    exact (hwellFormed.exprs node hnode).definite
  · cases h

theorem parse_ne_endless (tokens : List Token) : parse tokens ≠ .endless := by
  cases hs : Stream.ofTokens tokens with
  | ok s =>
    obtain ⟨-, -, hclosed⟩ := Stream.of_ofTokens hs
    rw [parse_of_ofTokens hs]
    intro h
    split at h
    · cases h
    · cases h
    · next hrun => exact Parse.statements_ne_endless hclosed hrun
  | error cause =>
    rw [parse, parseRun, Run.ofTokens, hs]
    intro h
    cases h

theorem parseSource_ne_endless (source : String) : parseSource source ≠ .endless := by
  unfold parseSource
  intro h
  split at h
  · exact parse_ne_endless _ h
  · cases h

/-- No number in the program of a source text is signed or not a number. So comparing the answers for any
two source texts, numbers as numbers, tells exactly whether the answers are the same: each answer is equal
to itself, whether a program or a fault, and different answers are not equal. -/
theorem parseSource_same_iff :
    (∀ source p v, parseSource source = .ok p → .number v ∈ p.exprs →
      v.isNaN = false ∧ v.negative = false) ∧
    (∀ source, (∃ p, parseSource source = .ok p) ∨ ∃ cause, parseSource source = .fault cause) ∧
    (∀ source, (parseSource source).same Program.same (parseSource source) = true) ∧
    ∀ source source', (parseSource source).same Program.same (parseSource source') = true ↔
      parseSource source = parseSource source' := by
  have hsame (source source' : String) :
      (parseSource source).same Program.same (parseSource source') = true ↔
        parseSource source = parseSource source' := by
    apply Answer.same_iff_eq
    intro p q hp hq
    exact (definite_of_parseSource hp).same_iff_eq (definite_of_parseSource hq)
  refine ⟨?_, ?_, fun source => (hsame source source).2 rfl, hsame⟩
  · intro source p v hp hv
    obtain ⟨hnan, hnegative⟩ : v.Unsigned := definite_of_parseSource hp _ hv
    exact ⟨hnan, hnegative⟩
  · intro source
    cases h : parseSource source with
    | ok p => exact .inl ⟨p, rfl⟩
    | fault cause => exact .inr ⟨cause, rfl⟩
    | endless => exact absurd h (parseSource_ne_endless source)

/-- A dash before a zero is an operator, and the zero below it has no sign; `0` and `00` write one number,
and comparing tells `0` from `-0` by the operator. -/
theorem parseSource_same_iff_zero :
    parseSource "-0.0;" = .ok ⟨[.expression (.unary ⟨.mark .dash, "-"⟩ (.number .zero))]⟩ ∧
      (Double.zero.isNaN = false ∧ Double.zero.negative = false) ∧
      (parseSource "0;").same Program.same (parseSource "00;") = true ∧
      (parseSource "0;").same Program.same (parseSource "-0;") = false := by
  have hsource : parseSource "-0.0;" =
      .ok ⟨[.expression (.unary ⟨.mark .dash, "-"⟩ (.number .zero))]⟩ := by
    with_unfolding_all rfl
  refine ⟨hsource, parseSource_same_iff.1 _ _ _ hsource (.tail _ (.head _)), ?_, ?_⟩
  · exact (parseSource_same_iff.2.2.2 _ _).2 (by with_unfolding_all rfl)
  · with_unfolding_all rfl

end ScriptFront
