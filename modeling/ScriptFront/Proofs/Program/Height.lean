import ScriptFront.Proofs.Program.Nodes

/-!
# How deep programs go

The height of a tree is the number of nodes on its longest way down. The limit on nesting is a limit on
the levels that are open at once while a program is read, and no level is opened for the operand to the
left of an operator: that operand has been read already. So rows of operators make trees of any
height (`height_unbounded`). All other steps down are paid for by the levels, at most two for each,
and the height is bounded if the steps into left operands do not count (`parse_height_le`).
-/

namespace ScriptFront

/-! ## Heights -/

namespace Expr

mutual

/-- The nodes on the longest way down, where an operator counts `left` on a way through the operand to
its left. -/
def height (left : Nat) : Expr → Nat
  | number _ | string _ | symbol _ => 1
  | unary _ e => e.height left + 1
  | binary _ a b => max (a.height left + left) (b.height left + 1)
  | assign _ a b => max (a.height left) (b.height left) + 1
  | construct _ es | group es => heightAll left es + 1

/-- The nodes on the longest way down one of the expressions. -/
def heightAll (left : Nat) : List Expr → Nat
  | [] => 0
  | e :: es => max (e.height left) (heightAll left es)

end

theorem heightAll_le {left bound : Nat} {es : List Expr} :
    heightAll left es ≤ bound ↔ ∀ e ∈ es, e.height left ≤ bound := by
  induction es with
  | nil => simp [heightAll]
  | cons e es ih => rw [heightAll, Nat.max_le, ih, List.forall_mem_cons]

end Expr

/-- The nodes on the only way down a type. -/
def TypeRef.height : TypeRef → Nat
  | named _ => 1
  | group element _ => element.height + 1

/-- The nodes on the longest way down the type or the value of a variable. -/
def Binding.height (left : Nat) : Binding → Nat
  | typed type => type.height
  | inferred value => value.height left
  | annotated type value => max type.height (value.height left)

/-- The nodes on the longest way down the type of one of the properties. -/
def Property.heightAll : List Property → Nat
  | [] => 0
  | q :: qs => max q.type.height (heightAll qs)

namespace Stmt

mutual

/-- The nodes on the longest way down a statement. -/
def height (left : Nat) : Stmt → Nat
  | block body => heightAll left body + 1
  | expression e => e.height left + 1
  | declaration _ _ binding => binding.height left + 1
  | object _ properties => Property.heightAll properties + 1

/-- The nodes on the longest way down one of the statements. -/
def heightAll (left : Nat) : List Stmt → Nat
  | [] => 0
  | s :: ss => max (s.height left) (heightAll left ss)

end

theorem heightAll_le {left bound : Nat} {body : List Stmt} :
    heightAll left body ≤ bound ↔ ∀ s ∈ body, s.height left ≤ bound := by
  induction body with
  | nil => simp [heightAll]
  | cons s ss ih => rw [heightAll, Nat.max_le, ih, List.forall_mem_cons]

end Stmt

theorem Property.heightAll_le {bound : Nat} {qs : List Property} :
    heightAll qs ≤ bound ↔ ∀ q ∈ qs, q.type.height ≤ bound := by
  induction qs with
  | nil => simp [heightAll]
  | cons q qs ih => rw [heightAll, Nat.max_le, ih, List.forall_mem_cons]

theorem Binding.height_le {left bound : Nat} {b : Binding}
    (htype : ∀ type ∈ b.type?, type.height ≤ bound)
    (hvalue : ∀ value ∈ b.value?, value.height left ≤ bound) : b.height left ≤ bound := by
  cases b with
  | typed type => exact htype type rfl
  | inferred value => exact hvalue value rfl
  | annotated type value => exact Nat.max_le.2 ⟨htype type rfl, hvalue value rfl⟩

/-- The nodes on the longest way down a program, which is a node itself. -/
def Program.height (left : Nat) (p : Program) : Nat := Stmt.heightAll left p.body + 1

/-! ## What the levels of nesting bound -/

section

variable {n : Nat} {ts : List Token}

/-- An expression takes at most two nodes for each level, and one less if it is no assignment. -/
theorem Derives.height_le {l : Layer} {e : Expr} (h : Derives n l ts e) :
    e.height 0 ≤ 2 * n ∧ (l ≠ .assignment → e.height 0 < 2 * n) := by
  have below {k bound : Nat} {l : Layer} (h : k < bound) : k ≤ bound ∧ (l ≠ .assignment → k < bound) :=
    ⟨Nat.le_of_lt h, fun _ => h⟩
  induction h with
  | @lift _ l _ _ _ hl _ ih => exact below (ih.2 (by cases l <;> cases hl <;> decide))
  | assign _ _ _ _ ihl ihr =>
    have hleft := ihl.2 (by decide)
    refine ⟨?_, fun hne => absurd rfl hne⟩
    rw [Expr.height]
    omega
  | @join _ l _ _ _ _ _ _ _ _ _ hm _ _ ihl ihr =>
    -- no layer of operators is the one of assignments, and the operand to the left brings its own bound
    have hleft := ihl.2 (by rintro rfl; cases hm)
    refine below ?_
    rw [Expr.height]
    omega
  | negate _ _ _ ih =>
    have hoperand := ih.2 (by decide)
    refine below ?_
    rw [Expr.height]
    omega
  | memberNegate _ _ _ _ _ ihl ihr =>
    have hleft := ihl.2 (by decide)
    refine below ?_
    rw [Expr.height, Expr.height]
    omega
  | member _ _ _ ihl ihr =>
    have hleft := ihl.2 (by decide)
    refine below ?_
    rw [Expr.height]
    omega
  | construct _ _ _ _ _ _ ihi =>
    have harguments := Expr.heightAll_le.2 (List.forall_mem_map.2 fun item hitem => (ihi item hitem).1)
    refine below ?_
    rw [Expr.height]
    omega
  | number | string | symbol =>
    refine below ?_
    rw [Expr.height]
    omega
  | parenthesised _ _ _ ih => exact below (by omega)
  | group _ _ _ _ ihi =>
    have helements := Expr.heightAll_le.2 (List.forall_mem_map.2 fun item hitem => (ihi item hitem).1)
    refine below ?_
    rw [Expr.height]
    omega

theorem DerivesType.height_le {type : TypeRef} (h : DerivesType n ts type) : type.height ≤ n := by
  induction h with
  | named => exact Nat.succ_pos _
  | group _ _ _ _ _ _ _ ih => exact Nat.succ_le_succ ih

theorem DerivesAnnotation.height_le {type? : Option TypeRef} (h : DerivesAnnotation n ts type?) :
    ∀ type ∈ type?, type.height ≤ n := by
  rintro type rfl
  obtain _ | ⟨-, h⟩ := h
  exact h.height_le

theorem DerivesInitializer.height_le {value? : Option Expr} (h : DerivesInitializer n ts value?) :
    ∀ value ∈ value?, value.height 0 ≤ 2 * n := by
  rintro value rfl
  obtain _ | ⟨-, h⟩ := h
  exact h.height_le.1

theorem DerivesProperty.height_le {q : Property} (h : DerivesProperty n ts q) : q.type.height ≤ n := by
  obtain ⟨-, -, htype, -⟩ := h
  exact htype.height_le

/-- A statement is a node over types and expressions. -/
theorem DerivesStmt.height_le {stmt : Stmt} (h : DerivesStmt n ts stmt) :
    stmt.height 0 ≤ 2 * n + 1 := by
  induction h with
  | block _ _ _ ih =>
    have hbody := Stmt.heightAll_le.2 (List.forall_mem_map.2 ih)
    rw [Stmt.height]
    omega
  | @declaration n _ _ _ _ _ _ _ _ _ htype hvalue _ _ =>
    refine Nat.succ_le_succ (Binding.height_le ?_ hvalue.height_le)
    intro type h
    have := htype.height_le type h
    omega
  | object _ _ _ _ hitems _ =>
    have hproperties := Property.heightAll_le.2
      (List.forall_mem_map.2 fun item hitem => (hitems item hitem).height_le)
    rw [Stmt.height]
    omega
  | expression h _ => exact Nat.succ_le_succ h.height_le.1

end

/-- A program that is read has no way down with more than two nodes for each level of nesting and two
more, not counting the operators that the way leaves through the operand to their left. -/
theorem parse_height_le {tokens : List Token} {p : Program} (h : parse tokens = .ok p) :
    p.height 0 ≤ 2 * maxNesting + 2 := by
  obtain ⟨ts, k, rest, -, -, items, hitems, -, hbody⟩ := derivesProgram_of_parse_ok h
  have hstmts := Stmt.heightAll_le.2 (List.forall_mem_map.2 fun item hitem => (hitems item hitem).height_le)
  rw [Program.height, hbody]
  exact Nat.succ_le_succ hstmts

/-- `{ const d : int = [a + b + c, -p(d)]; }` has a way of seven nodes down to `a`. -/
theorem parse_height_le_block :
    ∃ p, parse [⟨.mark .openCurly, "\x7b"⟩, ⟨.word .const, "const"⟩, ⟨.identifier, "d"⟩, ⟨.mark .colon, ":"⟩,
        ⟨.identifier, "int"⟩, ⟨.mark .assign, "="⟩, ⟨.mark .openBracket, "["⟩, ⟨.identifier, "a"⟩,
        ⟨.mark .plus, "+"⟩, ⟨.identifier, "b"⟩, ⟨.mark .plus, "+"⟩, ⟨.identifier, "c"⟩, ⟨.mark .comma, ","⟩,
        ⟨.mark .dash, "-"⟩, ⟨.identifier, "p"⟩, ⟨.mark .openParen, "("⟩, ⟨.identifier, "d"⟩,
        ⟨.mark .closeParen, ")"⟩, ⟨.mark .closeBracket, "]"⟩, ⟨.mark .semicolon, ";"⟩,
        ⟨.mark .closeCurly, "\x7d"⟩, Token.endOfInput] = .ok p ∧
      p.height 1 = 7 ∧ p.height 0 ≤ 2 * maxNesting + 2 := by
  refine ⟨⟨[.block [.declaration "d" true (.annotated (.named "int")
    (.group [.binary ⟨.mark .plus, "+"⟩
        (.binary ⟨.mark .plus, "+"⟩ (.symbol "a") (.symbol "b")) (.symbol "c"),
      .unary ⟨.mark .dash, "-"⟩ (.construct "p" [.symbol "d"])]))]]⟩,
    (fun h => ⟨h, rfl, parse_height_le h⟩) ?_⟩
  with_unfolding_all rfl

/-! ## Rows of operators -/

/-- The tokens of `a + a + ⋯ + a` with so many operators. -/
def sumTokens : Nat → List Token
  | 0 => [⟨.identifier, "a"⟩]
  | k + 1 => sumTokens k ++ [⟨.mark .plus, "+"⟩, ⟨.identifier, "a"⟩]

/-- The expression `a + a + ⋯ + a` with so many operators. -/
def sumExpr : Nat → Expr
  | 0 => .symbol "a"
  | k + 1 => .binary ⟨.mark .plus, "+"⟩ (sumExpr k) (.symbol "a")

/-- Two levels are enough for a sum of any length. -/
theorem derives_sum (n k : Nat) : Derives (n + 2) .additive (sumTokens k) (sumExpr k) := by
  have hname (n : Nat) : Derives (n + 1) .atom [⟨.identifier, "a"⟩] (.symbol "a") :=
    .symbol (t := ⟨.identifier, "a"⟩) rfl
  induction k with
  | zero => exact (hname (n + 1)).loosen (by decide)
  | succ k ih => exact .join rfl rfl (m := .plus) (by decide) ih ((hname n).loosen (by decide))

theorem height_sum (k : Nat) : (sumExpr k).height 1 = k + 1 := by
  induction k with
  | zero => rfl
  | succ k ih =>
    rw [sumExpr, Expr.height, ih, Expr.height]
    omega

/-- No number bounds the nodes on the longest way down the programs that are read. -/
theorem height_unbounded :
    ¬ ∃ bound, ∀ (tokens : List Token) (p : Program), parse tokens = .ok p → p.height 1 ≤ bound := by
  rintro ⟨bound, h⟩
  have hsum : Derives maxNesting .assignment (sumTokens bound) (sumExpr bound) :=
    (derives_sum 254 bound).loosen (by decide)
  have hparse : parse (sumTokens bound ++ [⟨.mark .semicolon, ";"⟩, .endOfInput]) =
      .ok ⟨[.expression (sumExpr bound)]⟩ := parse_of_derives hsum rfl rfl
  have hle := h _ _ hparse
  simp only [Program.height, Stmt.heightAll, Stmt.height, height_sum] at hle
  omega

end ScriptFront
