import ScriptFront.Proofs.Print.RoundTrip

/-!
# Chains of operators

A chain is a row of single words with operators between them. What tree it writes can be said without
reading it from left to right: it is cut in two at its weakest operator, and both sides are cut in the
same way (`Chain.tree`). The weakest operator is the first assignment, and in a chain without assignments
the last of the operators that bind least tightly.

The grammar derives this tree, because the links to the left of the cut bind at least as tightly as the
operator there and those to the right more tightly (`Chain.Cut.Weakest`), as its layers ask. A
chain opens a new level of nesting only from one layer to a tighter one, and for each assignment; so chains
of any length are read (`parse_chain`).
-/

namespace ScriptFront

namespace Chain

/-- A word that is an expression by itself: a name, a string, or a number that can be read. -/
inductive Leaf where
  | name (text : String)
  | string (text : String)
  | number (lexeme : String) (value : Double) (reads : Double.read? lexeme = some value)

namespace Leaf

/-- The token of a word. -/
def token : Leaf → Token
  | name text => ⟨.identifier, text⟩
  | string text => ⟨.string, text⟩
  | number lexeme _ _ => ⟨.number, lexeme⟩

/-- The expression that a word is. -/
def tree : Leaf → Expr
  | name text => .symbol text
  | string text => .string text
  | number _ value _ => .number value

theorem derives (a : Leaf) (n : Nat) : Derives (n + 1) .atom [a.token] a.tree := by
  cases a with
  | name text => exact .symbol (t := ⟨.identifier, text⟩) rfl
  | string text => exact .string (t := ⟨.string, text⟩) rfl
  | number lexeme value reads => exact .number rfl reads

end Leaf

/-- An operator that stands between two words, with whatever lexeme. -/
structure Operator where
  mark : Mark
  lexeme : String
  between : mark ∈ Mark.assigning ++ Mark.joining

namespace Operator

/-- The token of an operator. -/
def token (o : Operator) : Token := ⟨.mark o.mark, o.lexeme⟩

/-- How tightly an operator binds. -/
def power (o : Operator) : Power := ExprGrammar.standard.power (.mark o.mark)

/-- The operator is one of an assignment. -/
def assigns (o : Operator) : Bool := decide (o.mark ∈ Mark.assigning)

/-- The node of an operator over its two sides. -/
def node (o : Operator) (a b : Expr) : Expr :=
  if o.assigns then .assign o.token a b else .binary o.token a b

theorem mem_joining {o : Operator} (h : o.assigns = false) : o.mark ∈ Mark.joining := by
  obtain hmem | hmem := List.mem_append.1 o.between
  · simp [assigns, hmem] at h
  · exact hmem

end Operator

/-- An operator and the word after it. -/
abbrev Link := Operator × Leaf

/-- The tokens of a chain. -/
def tokens (first : Leaf) (links : List Link) : List Token :=
  first.token :: links.flatMap fun link => [link.1.token, link.2.token]

/-! ## Cutting a chain -/

/-- An operator of a chain, with the links before it, the word after it and the links after that. -/
structure Cut where
  before : List Link
  operator : Operator
  next : Leaf
  after : List Link

/-- The cut behind one more link. -/
def Cut.behind (link : Link) (c : Cut) : Cut := { c with before := link :: c.before }

/-- The links that a cut is made of. -/
def Cut.links (c : Cut) : List Link := c.before ++ (c.operator, c.next) :: c.after

/-- The cut at the first assignment. -/
def atAssignment? : List Link → Option Cut
  | [] => none
  | link :: links =>
    if link.1.assigns then some ⟨[], link.1, link.2, links⟩
    else (atAssignment? links).map (Cut.behind link)

/-- The cut at the last of the operators that bind least tightly. -/
def atWeakest? : List Link → Option Cut
  | [] => none
  | link :: links =>
    match atWeakest? links with
    | none => some ⟨[], link.1, link.2, links⟩
    | some c =>
      if link.1.power < c.operator.power then some ⟨[], link.1, link.2, links⟩
      else some (c.behind link)

/-- The cut at the first assignment or, without one, at the last of the weakest operators. -/
def cut? (links : List Link) : Option Cut := (atAssignment? links).or (atWeakest? links)

/-- The operator is an assignment and the first one. -/
structure Cut.FirstAssignment (c : Cut) : Prop where
  here : c.operator.assigns = true
  before : ∀ link ∈ c.before, link.1.assigns = false

/-- All operators before bind at least as tightly, and all after it more tightly. -/
structure Cut.Weakest (c : Cut) : Prop where
  before : ∀ link ∈ c.before, c.operator.power ≤ link.1.power
  after : ∀ link ∈ c.after, c.operator.power < link.1.power

theorem atAssignment?_some {links : List Link} {c : Cut} (h : atAssignment? links = some c) :
    c.links = links ∧ c.FirstAssignment := by
  induction links generalizing c with
  | nil => cases h
  | cons link links ih =>
    rw [atAssignment?] at h
    split at h
    · next hassigns =>
      cases h
      exact ⟨rfl, hassigns, nofun⟩
    · next hassigns =>
      obtain ⟨c, hc, rfl⟩ := Option.map_eq_some_iff.1 h
      obtain ⟨hlinks, hfirst⟩ := ih hc
      refine ⟨?_, hfirst.here, ?_⟩
      · rw [← hlinks]
        rfl
      · exact List.forall_mem_cons.2 ⟨Bool.eq_false_iff.2 hassigns, hfirst.before⟩

theorem atAssignment?_none {links : List Link} (h : atAssignment? links = none) :
    ∀ link ∈ links, link.1.assigns = false := by
  induction links with
  | nil => nofun
  | cons link links ih =>
    rw [atAssignment?] at h
    split at h
    · cases h
    · next hassigns =>
      have hlinks := ih (Option.map_eq_none_iff.1 h)
      exact List.forall_mem_cons.2 ⟨Bool.eq_false_iff.2 hassigns, hlinks⟩

theorem atWeakest?_none {links : List Link} (h : atWeakest? links = none) : links = [] := by
  cases links with
  | nil => rfl
  | cons link links =>
    rw [atWeakest?] at h
    split at h
    · cases h
    · split at h <;> cases h

theorem atWeakest?_some {links : List Link} {c : Cut} (h : atWeakest? links = some c) :
    c.links = links ∧ c.Weakest := by
  induction links generalizing c with
  | nil => cases h
  | cons link links ih =>
    rw [atWeakest?] at h
    split at h
    · next hnone =>
      cases h
      obtain rfl := atWeakest?_none hnone
      exact ⟨rfl, nofun, nofun⟩
    · next c' hc' =>
      obtain ⟨hlinks, hweakest⟩ := ih hc'
      split at h
      · next hlt =>
        cases h
        refine ⟨rfl, nofun, ?_⟩
        -- every link after this one binds at least as tightly as the weakest of them
        intro other hother
        rw [← hlinks, Cut.links, List.mem_append, List.mem_cons] at hother
        rcases hother with hother | rfl | hother
        · exact Nat.lt_of_lt_of_le hlt (hweakest.before other hother)
        · exact hlt
        · exact Nat.lt_trans hlt (hweakest.after other hother)
      · next hge =>
        cases h
        refine ⟨?_, ?_, hweakest.after⟩
        · rw [← hlinks]
          rfl
        · exact List.forall_mem_cons.2 ⟨Nat.le_of_not_lt hge, hweakest.before⟩

/-- What a cut is: one at the first assignment, or one at a weakest operator where there is none. -/
theorem cut?_some {links : List Link} {c : Cut} (h : cut? links = some c) :
    c.links = links ∧
      (c.FirstAssignment ∨ (∀ link ∈ links, link.1.assigns = false) ∧ c.Weakest) := by
  rw [cut?, Option.or_eq_some_iff] at h
  obtain h | ⟨hnone, h⟩ := h
  · exact ⟨(atAssignment?_some h).1, .inl (atAssignment?_some h).2⟩
  · exact ⟨(atWeakest?_some h).1, .inr ⟨atAssignment?_none hnone, (atWeakest?_some h).2⟩⟩

theorem cut?_none {links : List Link} (h : cut? links = none) : links = [] := by
  rw [cut?, Option.or_eq_none_iff] at h
  exact atWeakest?_none h.2

theorem length_lt_of_cut? {links : List Link} {c : Cut} (h : cut? links = some c) :
    c.before.length < links.length ∧ c.after.length < links.length := by
  rw [← (cut?_some h).1, Cut.links, List.length_append, List.length_cons]
  omega

/-- The tree of a chain: the node of the operator at which it is cut over the trees of the two sides, and
a word by itself if there is no operator. -/
def tree (first : Leaf) (links : List Link) : Expr :=
  match h : cut? links with
  | none => first.tree
  | some c =>
    have := length_lt_of_cut? h
    c.operator.node (tree first c.before) (tree c.next c.after)
termination_by links.length

theorem tree_of_none {first : Leaf} {links : List Link} (h : cut? links = none) :
    tree first links = first.tree := by
  rw [tree]
  split
  · rfl
  · next h' => rw [h] at h'; cases h'

theorem tree_of_some {first : Leaf} {links : List Link} {c : Cut} (h : cut? links = some c) :
    tree first links = c.operator.node (tree first c.before) (tree c.next c.after) := by
  rw [tree]
  split
  · next h' => rw [h] at h'; cases h'
  · next c' h' =>
    rw [h] at h'
    cases h'
    rfl

theorem tokens_links (first : Leaf) (c : Cut) :
    tokens first c.links =
      tokens first c.before ++ c.operator.token :: tokens c.next c.after := by
  simp [tokens, Cut.links]

end Chain

/-! ## Chains in the grammar -/

namespace Layer

/-- The levels of nesting that are enough for a chain in the layer, if it has no assignments. -/
def levels : Layer → Nat
  | assignment | logical => 6
  | relational => 5
  | additive => 4
  | multiplicative => 3
  | unary | primary => 2
  | atom => 1

variable {l l' : Layer}

theorem levels_pos (l : Layer) : 0 < l.levels := by
  cases l <;> decide

theorem levels_le_of_rank_le (h : l.rank ≤ l'.rank) : l'.levels ≤ l.levels := by
  cases l <;> cases l' <;> first | decide | exact absurd h (by decide)

theorem rank_le_of_bound_lt_reach (h : l.bound < l'.reach) : l.rank ≤ l'.rank := by
  cases l <;> cases l' <;> first | decide | exact absurd h (by decide)

/-- The mark joins phrases of the layer `l` with phrases of the layer `l'` to their right. -/
structure Joins (m : Mark) (l l' : Layer) : Prop where
  power : ExprGrammar.standard.power (.mark m) = l.reach
  bound : l.bound < l.reach
  levels : l'.levels < l.levels
  /-- Operators that bind more tightly than the mark belong into the layer to the right. -/
  right : ∀ k ∈ Mark.joining, l.reach < ExprGrammar.standard.power (.mark k) →
    l'.bound < ExprGrammar.standard.power (.mark k)
  derives : ∀ {n : Nat} {ts us : List Token} {op : Token} {a b : Expr}, op.kind = .mark m →
    Derives (n + 1) l ts a → Derives n l' us b → Derives (n + 1) l (ts ++ op :: us) (.binary op a b)

/-- An operator of a layer joins its phrases with phrases of the next tighter layer. -/
theorem Joins.of_joins {m : Mark} (hm : m ∈ l.joins) (hl : l.tighter? = some l') : Joins m l l' := by
  obtain ⟨hform, hlt, -⟩ := operator_of_joins hm hl
  have hlayers : l'.levels < l.levels ∧
      ∀ k ∈ Mark.joining, l.reach < ExprGrammar.standard.power (.mark k) →
        l'.bound < ExprGrammar.standard.power (.mark k) := by
    cases l <;> cases hl <;> first | decide | cases hm
  exact ⟨ExprGrammar.power_eq rfl hform, hlt, hlayers.1, hlayers.2, fun hop => .join hl hop hm⟩

/-- The access to a member joins an operand with an atom. -/
theorem Joins.dot : Joins .dot .primary .atom where
  power := rfl
  bound := by decide
  levels := by decide
  right := by decide
  derives hop := .member hop

/-- Each operator between two operands joins phrases of some layer. -/
theorem exists_joins {m : Mark} (h : m ∈ Mark.joining) : ∃ l l' : Layer, Joins m l l' := by
  obtain rfl | ⟨l, l', hl, hm⟩ := Mark.exists_joins h
  · exact ⟨_, _, .dot⟩
  · exact ⟨l, l', .of_joins hm hl⟩

end Layer

namespace Chain

/-- A chain without assignments is a phrase of a layer if all its operators bind more tightly than the
layer's bound. -/
theorem derives_joined {n : Nat} {l : Layer} (first : Leaf) (links : List Link)
    (hjoins : ∀ link ∈ links, link.1.assigns = false)
    (hbound : ∀ link ∈ links, l.bound < link.1.power) (hn : l.levels ≤ n) :
    Derives n l (tokens first links) (tree first links) := by
  induction hlength : links.length using Nat.strongRecOn generalizing n l first links with
  | ind length ih =>
    obtain ⟨n, rfl⟩ : ∃ k, n = k + 1 := ⟨n - 1, by have := l.levels_pos; omega⟩
    cases hcut : cut? links with
    | none =>
      obtain rfl := cut?_none hcut
      rw [tree_of_none hcut]
      refine (first.derives n).loosen ?_
      cases l <;> decide
    | some c =>
      obtain ⟨rfl, hcase⟩ := cut?_some hcut
      obtain ⟨hbefore, hafter⟩ := length_lt_of_cut? hcut
      have hmem : (c.operator, c.next) ∈ c.links := by simp [Cut.links]
      have hleft {link : Link} (h : link ∈ c.before) : link ∈ c.links :=
        List.mem_append_left _ h
      have hright {link : Link} (h : link ∈ c.after) : link ∈ c.links :=
        List.mem_append_right _ (List.mem_cons_of_mem _ h)
      have hhere : c.operator.assigns = false := hjoins _ hmem
      obtain hfirst | ⟨-, hweakest⟩ := hcase
      · rw [hfirst.here] at hhere
        cases hhere
      obtain ⟨lo, lo', hop⟩ := Layer.exists_joins (Operator.mem_joining hhere)
      have hpower : c.operator.power = lo.reach := hop.power
      -- the chain is a phrase of the operator's own layer, which is at least as tight as the one asked for
      have hrank : l.rank ≤ lo.rank :=
        Layer.rank_le_of_bound_lt_reach (hpower ▸ hbound _ hmem)
      have hlevels := Nat.le_trans (Layer.levels_le_of_rank_le hrank) hn
      have hlinksBefore : Derives (n + 1) lo (tokens first c.before) (tree first c.before) := by
        refine ih _ (hlength ▸ hbefore) first c.before (fun link h => hjoins link (hleft h)) ?_
          hlevels rfl
        intro link h
        exact Nat.lt_of_lt_of_le hop.bound (hpower ▸ hweakest.before link h)
      have hlinksAfter : Derives n lo' (tokens c.next c.after) (tree c.next c.after) := by
        refine ih _ (hlength ▸ hafter) c.next c.after (fun link h => hjoins link (hright h)) ?_ ?_ rfl
        · intro link h
          have hmark := Operator.mem_joining (hjoins link (hright h))
          exact hop.right _ hmark (hpower ▸ hweakest.after link h)
        · have := hop.levels
          omega
      rw [tree_of_some hcut, tokens_links, Operator.node, hhere]
      exact (hop.derives rfl hlinksBefore hlinksAfter).loosen hrank

/-- All operators but assignments bind more tightly than those. -/
theorem Operator.assignment_lt_power {o : Operator} (h : o.assigns = false) : .assignment < o.power := by
  have hpower : ∀ m ∈ Mark.joining, .assignment < ExprGrammar.standard.power (.mark m) := by decide
  exact hpower o.mark (mem_joining h)

/-- A chain is an expression, with a level of nesting for each assignment. -/
theorem derives {n : Nat} (first : Leaf) (links : List Link)
    (hn : links.countP (fun link => link.1.assigns) + 6 ≤ n) :
    Derives n .assignment (tokens first links) (tree first links) := by
  -- a side without assignments is a phrase of the layer below them
  have hlogical {n : Nat} (first : Leaf) {links : List Link} (hn : 6 ≤ n)
      (hjoins : ∀ link ∈ links, link.1.assigns = false) :
      Derives n .logical (tokens first links) (tree first links) :=
    derives_joined first links hjoins
      (fun link h => Operator.assignment_lt_power (hjoins link h)) hn
  induction hlength : links.length using Nat.strongRecOn generalizing n first links with
  | ind length ih =>
    cases hassign : atAssignment? links with
    | none => exact .lift rfl (hlogical first (by omega) (atAssignment?_none hassign))
    | some c =>
      have hcut : cut? links = some c := by rw [cut?, hassign, Option.some_or]
      obtain ⟨rfl, hfirst⟩ := atAssignment?_some hassign
      obtain ⟨-, hafter⟩ := length_lt_of_cut? hcut
      have hcount : c.links.countP (fun link => link.1.assigns) =
          c.after.countP (fun link => link.1.assigns) + 1 := by
        have hbefore : c.before.countP (fun link => link.1.assigns) = 0 :=
          List.countP_eq_zero.2 fun link h => by simp [hfirst.before link h]
        rw [Cut.links, List.countP_append, hbefore, Nat.zero_add,
          List.countP_cons_of_pos (by exact hfirst.here)]
      obtain ⟨n, rfl⟩ : ∃ k, n = k + 1 := ⟨n - 1, by omega⟩
      have hleft := hlogical (n := n + 1) first (by omega) hfirst.before
      have hright := ih _ (hlength ▸ hafter) (n := n) c.next c.after (by omega) rfl
      have hmark : c.operator.mark ∈ Mark.assigning := by simpa [Operator.assigns] using hfirst.here
      rw [tree_of_some hcut, tokens_links, Operator.node, if_pos hfirst.here]
      exact .assign rfl hmark hleft hright

end Chain

open Chain in
/-- A chain of operators before a semicolon is read as one expression, the tree of the chain. It may be of
any length, with at most 250 assignments in it. -/
theorem parse_chain (first : Leaf) (links : List Link)
    (hassigns : links.countP (fun link => link.1.assigns) ≤ 250) {semicolon ending : Token}
    (hsemicolon : semicolon.kind = .mark .semicolon) (hending : ending.kind = .endOfInput) :
    parse (tokens first links ++ [semicolon, ending]) = .ok ⟨[.expression (tree first links)]⟩ := by
  have hchain : Derives maxNesting .assignment (tokens first links) (tree first links) :=
    derives first links (Nat.add_le_add_right hassigns 6)
  exact parse_of_derives hchain hsemicolon hending

open Chain in
/-- `x = "s" .. 2 * b.c - d == e += f;` is cut at its first assignment, then at the other one, then at the
weakest of the operators between the two. -/
theorem parse_chain_mixed :
    parse [⟨.identifier, "x"⟩, ⟨.mark .assign, "="⟩, ⟨.string, "s"⟩, ⟨.mark .dotDot, ".."⟩, ⟨.number, "2"⟩,
        ⟨.mark .star, "*"⟩, ⟨.identifier, "b"⟩, ⟨.mark .dot, "."⟩, ⟨.identifier, "c"⟩, ⟨.mark .dash, "-"⟩,
        ⟨.identifier, "d"⟩, ⟨.mark .equals, "=="⟩, ⟨.identifier, "e"⟩, ⟨.mark .plusEquals, "+="⟩,
        ⟨.identifier, "f"⟩, ⟨.mark .semicolon, ";"⟩, .endOfInput] =
      .ok ⟨[.expression (.assign ⟨.mark .assign, "="⟩ (.symbol "x")
        (.assign ⟨.mark .plusEquals, "+="⟩
          (.binary ⟨.mark .dotDot, ".."⟩ (.string "s")
            (.binary ⟨.mark .equals, "=="⟩
              (.binary ⟨.mark .dash, "-"⟩
                (.binary ⟨.mark .star, "*"⟩ (.number ⟨false, 2 ^ 62, by decide⟩)
                  (.binary ⟨.mark .dot, "."⟩ (.symbol "b") (.symbol "c")))
                (.symbol "d"))
              (.symbol "e")))
          (.symbol "f")))]⟩ := by
  have hsemicolon : Token.kind ⟨.mark .semicolon, ";"⟩ = .mark .semicolon := rfl
  have hending : Token.endOfInput.kind = .endOfInput := rfl
  refine (parse_chain (.name "x")
    [(⟨.assign, "=", by decide⟩, .string "s"),
      (⟨.dotDot, "..", by decide⟩, .number "2" ⟨false, 2 ^ 62, by decide⟩ (by decide +kernel)),
      (⟨.star, "*", by decide⟩, .name "b"), (⟨.dot, ".", by decide⟩, .name "c"),
      (⟨.dash, "-", by decide⟩, .name "d"), (⟨.equals, "==", by decide⟩, .name "e"),
      (⟨.plusEquals, "+=", by decide⟩, .name "f")] (by decide) hsemicolon hending).trans ?_
  with_unfolding_all rfl

end ScriptFront
