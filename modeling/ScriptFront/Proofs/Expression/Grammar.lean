import ScriptFront.Parse.Expression

/-!
# The grammar of expressions

Expressions are written in layers. A phrase of a layer is a phrase of the next tighter one, or joins
phrases by the operators of its own layer: to the left for the binary operators, to the right for
assignments. The tightest layers are operators before an operand, then accesses to members and the
construction of objects, then single words and whatever stands in brackets.

`Derives n l ts e` says that the tokens `ts` write the tree `e` in the layer `l`, with at most `n`
levels of nesting open at once. The phrase itself is one level. An operand to the right of an operator,
an expression in parentheses and an item of a list each stand one level deeper; an operand to the left
does not.
-/

namespace ScriptFront

/-- The layers of the grammar, from the loosest to the tightest. -/
inductive Layer where
  | assignment | logical | relational | additive | multiplicative
  /-- Operators before their operand. -/
  | unary
  /-- Accesses to members and constructions of objects. -/
  | primary
  /-- Single words and phrases in brackets. -/
  | atom
deriving DecidableEq, Repr

namespace Layer

/-- The layer whose phrases are the simplest phrases of this one. -/
def tighter? : Layer → Option Layer
  | assignment => some logical
  | logical => some relational
  | relational => some additive
  | additive => some multiplicative
  | multiplicative => some unary
  | unary => some primary
  | primary => some atom
  | atom => none

/-- The operators that join two phrases in this layer, the left one of the layer itself. -/
def joins : Layer → List Mark
  | logical => [.and, .or, .dotDot]
  | relational => [.less, .lessEquals, .greater, .greaterEquals, .equals, .notEquals]
  | additive => [.plus, .dash]
  | multiplicative => [.star, .slash, .percent]
  | _ => []

/-- The layer that is read at a bound; bounds tighter than the operators before an operand have none. -/
def ofBound? : Power → Option Layer
  | .lowest | .comma => some assignment
  | .assignment => some logical
  | .logical => some relational
  | .relational => some additive
  | .additive => some multiplicative
  | .multiplicative | .unary => some unary
  | .call | .member | .primary => none

end Layer

/-- The operators of assignments. -/
def Mark.assigning : List Mark := [.assign, .plusEquals, .minusEquals]

/-- The operators before an operand. -/
def Mark.negating : List Mark := [.dash, .not]

/-- Parts with commas between them, and perhaps one more after the last. -/
inductive Separated : List (List Token) → List Token → Prop where
  | nil : Separated [] []
  | last (ts : List Token) : Separated [ts] ts
  | comma {ts us : List Token} {parts : List (List Token)} {c : Token}
      (hc : c.kind = .mark .comma) (h : Separated parts us) : Separated (ts :: parts) (ts ++ c :: us)

/-- What holds of the parts' tokens and of commas holds throughout. -/
theorem Separated.forall_mem {P : Token → Prop} {parts : List (List Token)} {us : List Token}
    (h : Separated parts us) (hparts : ∀ ts ∈ parts, ∀ t ∈ ts, P t)
    (hcomma : ∀ t : Token, t.kind = .mark .comma → P t) : ∀ t ∈ us, P t := by
  induction h with
  | nil => simp
  | last ts => exact hparts ts (List.mem_singleton_self ts)
  | comma hc _ ih =>
    obtain ⟨hts, hparts⟩ := List.forall_mem_cons.1 hparts
    exact List.forall_mem_append.2 ⟨hts, List.forall_mem_cons.2 ⟨hcomma _ hc, ih hparts⟩⟩

/-- A number token whose lexeme denotes a number, or any other token. -/
def Token.Readable (t : Token) : Prop := t.kind = .number → (Double.read? t.lexeme).isSome

theorem Token.Readable.of_mark {t : Token} {m : Mark} (h : t.kind = .mark m) : t.Readable := by
  simp [Token.Readable, h]

/-- The tokens write the tree in the layer, within so many levels of nesting. -/
inductive Derives : Nat → Layer → List Token → Expr → Prop where
  /-- A phrase of the next tighter layer. -/
  | lift {n : Nat} {l l' : Layer} {ts : List Token} {e : Expr} (hl : l.tighter? = some l')
      (h : Derives n l' ts e) : Derives n l ts e
  /-- An assignment, whose value may be one too. -/
  | assign {n : Nat} {ts us : List Token} {op : Token} {m : Mark} {target value : Expr}
      (hop : op.kind = .mark m) (hm : m ∈ Mark.assigning)
      (left : Derives (n + 1) .logical ts target) (right : Derives n .assignment us value) :
      Derives (n + 1) .assignment (ts ++ op :: us) (.assign op target value)
  /-- Two phrases joined by an operator of the layer. -/
  | join {n : Nat} {l l' : Layer} {ts us : List Token} {op : Token} {m : Mark} {a b : Expr}
      (hl : l.tighter? = some l') (hop : op.kind = .mark m) (hm : m ∈ l.joins)
      (left : Derives (n + 1) l ts a) (right : Derives n l' us b) :
      Derives (n + 1) l (ts ++ op :: us) (.binary op a b)
  /-- An operator before its operand. -/
  | negate {n : Nat} {ts : List Token} {op : Token} {m : Mark} {e : Expr}
      (hop : op.kind = .mark m) (hm : m ∈ Mark.negating) (h : Derives n .unary ts e) :
      Derives (n + 1) .unary (op :: ts) (.unary op e)
  /-- A member that starts with an operator before its operand. -/
  | memberNegate {n : Nat} {ts us : List Token} {dot op : Token} {m : Mark} {a b : Expr}
      (hdot : dot.kind = .mark .dot) (hop : op.kind = .mark m) (hm : m ∈ Mark.negating)
      (left : Derives (n + 2) .primary ts a) (right : Derives n .unary us b) :
      Derives (n + 2) .unary (ts ++ dot :: op :: us) (.binary dot a (.unary op b))
  /-- The access to a member. -/
  | member {n : Nat} {ts us : List Token} {dot : Token} {a b : Expr} (hdot : dot.kind = .mark .dot)
      (left : Derives (n + 1) .primary ts a) (right : Derives n .atom us b) :
      Derives (n + 1) .primary (ts ++ dot :: us) (.binary dot a b)
  /-- The construction of an object: a name, perhaps in parentheses, and the arguments. -/
  | construct {n : Nat} {ts us : List Token} {opening closing : Token} {name : String}
      {items : List (List Token × Expr)} (ho : opening.kind = .mark .openParen)
      (hc : closing.kind = .mark .closeParen) (target : Derives (n + 1) .atom ts (.symbol name))
      (hus : Separated (items.map Prod.fst) us)
      (hitems : ∀ item ∈ items, Derives n .assignment item.1 item.2) :
      Derives (n + 1) .primary (ts ++ opening :: (us ++ [closing]))
        (.construct name (items.map Prod.snd))
  | number {n : Nat} {t : Token} {v : Double} (hk : t.kind = .number)
      (hv : Double.read? t.lexeme = some v) : Derives (n + 1) .atom [t] (.number v)
  | string {n : Nat} {t : Token} (hk : t.kind = .string) :
      Derives (n + 1) .atom [t] (.string t.lexeme)
  | symbol {n : Nat} {t : Token} (hk : t.kind = .identifier) :
      Derives (n + 1) .atom [t] (.symbol t.lexeme)
  /-- Parentheses leave no trace in the tree. -/
  | parenthesised {n : Nat} {ts : List Token} {opening closing : Token} {e : Expr}
      (ho : opening.kind = .mark .openParen) (hc : closing.kind = .mark .closeParen)
      (h : Derives n .assignment ts e) : Derives (n + 1) .atom (opening :: (ts ++ [closing])) e
  /-- The elements of a group in brackets. -/
  | group {n : Nat} {us : List Token} {opening closing : Token} {items : List (List Token × Expr)}
      (ho : opening.kind = .mark .openBracket) (hc : closing.kind = .mark .closeBracket)
      (hus : Separated (items.map Prod.fst) us)
      (hitems : ∀ item ∈ items, Derives n .assignment item.1 item.2) :
      Derives (n + 1) .atom (opening :: (us ++ [closing])) (.group (items.map Prod.snd))

namespace Derives

variable {n : Nat} {l : Layer} {ts : List Token} {e : Expr}

/-- A phrase is a level itself. -/
theorem pos (h : Derives n l ts e) : 0 < n := by
  induction h with
  | lift _ _ ih => exact ih
  | _ => exact Nat.succ_pos _

/-- A phrase that fits into some levels fits into more. -/
theorem mono {n' : Nat} (h : Derives n l ts e) (hn : n ≤ n') : Derives n' l ts e := by
  induction h generalizing n' with
  | lift hl _ ih => exact .lift hl (ih hn)
  | assign hop hm _ _ ihl ihr =>
    obtain ⟨k, rfl⟩ := Nat.exists_eq_add_of_le' hn
    exact .assign hop hm (ihl hn) (ihr (Nat.le_add_left _ k))
  | join hl hop hm _ _ ihl ihr =>
    obtain ⟨k, rfl⟩ := Nat.exists_eq_add_of_le' hn
    exact .join hl hop hm (ihl hn) (ihr (Nat.le_add_left _ k))
  | negate hop hm _ ih =>
    obtain ⟨k, rfl⟩ := Nat.exists_eq_add_of_le' hn
    exact .negate hop hm (ih (Nat.le_add_left _ k))
  | memberNegate hdot hop hm _ _ ihl ihr =>
    obtain ⟨k, rfl⟩ := Nat.exists_eq_add_of_le' hn
    exact .memberNegate hdot hop hm (ihl hn) (ihr (Nat.le_add_left _ k))
  | member hdot _ _ ihl ihr =>
    obtain ⟨k, rfl⟩ := Nat.exists_eq_add_of_le' hn
    exact .member hdot (ihl hn) (ihr (Nat.le_add_left _ k))
  | construct ho hc _ hus _ iht ihi =>
    obtain ⟨k, rfl⟩ := Nat.exists_eq_add_of_le' hn
    exact .construct ho hc (iht hn) hus fun item hitem => ihi item hitem (Nat.le_add_left _ k)
  | number hk hv =>
    obtain ⟨k, rfl⟩ := Nat.exists_eq_add_of_le' hn
    exact .number hk hv
  | string hk =>
    obtain ⟨k, rfl⟩ := Nat.exists_eq_add_of_le' hn
    exact .string hk
  | symbol hk =>
    obtain ⟨k, rfl⟩ := Nat.exists_eq_add_of_le' hn
    exact .symbol hk
  | parenthesised ho hc _ ih =>
    obtain ⟨k, rfl⟩ := Nat.exists_eq_add_of_le' hn
    exact .parenthesised ho hc (ih (Nat.le_add_left _ k))
  | group ho hc hus _ ihi =>
    obtain ⟨k, rfl⟩ := Nat.exists_eq_add_of_le' hn
    exact .group ho hc hus fun item hitem => ihi item hitem (Nat.le_add_left _ k)

/-- A phrase that is only a name is one in the tightest layer. -/
theorem atom_of_symbol {name : String} (h : Derives n l ts (.symbol name)) :
    Derives n .atom ts (.symbol name) := by
  generalize he : Expr.symbol name = e at h
  induction h with
  | lift _ _ ih => exact ih he
  | symbol hk => exact .symbol hk
  | parenthesised ho hc h => exact .parenthesised ho hc h
  | _ => cases he

/-- A phrase begins with a token that can start an expression. -/
theorem exists_head (h : Derives n l ts e) :
    ∃ t us, ts = t :: us ∧ (ExprGrammar.opening t.kind).isSome := by
  induction h with
  | lift _ _ ih => exact ih
  | assign _ _ _ _ ihl | join _ _ _ _ _ ihl | memberNegate _ _ _ _ _ ihl | member _ _ _ ihl
  | construct _ _ _ _ _ ihl =>
    obtain ⟨t, us, rfl, ht⟩ := ihl
    exact ⟨t, _, rfl, ht⟩
  | negate hop hm =>
    refine ⟨_, _, rfl, ?_⟩
    rw [hop]
    simp only [Mark.negating, List.mem_cons, List.not_mem_nil, or_false] at hm
    rcases hm with rfl | rfl <;> rfl
  | number hk | string hk | symbol hk => exact ⟨_, _, rfl, by rw [hk]; rfl⟩
  | parenthesised ho | group ho => exact ⟨_, _, rfl, by rw [ho]; rfl⟩

/-- Each number in a phrase can be read. -/
theorem readable (h : Derives n l ts e) : ∀ t ∈ ts, t.Readable := by
  induction h with
  | lift _ _ ih => exact ih
  | assign hop _ _ _ ihl ihr | join _ hop _ _ _ ihl ihr | member hop _ _ ihl ihr =>
    exact List.forall_mem_append.2 ⟨ihl, List.forall_mem_cons.2 ⟨.of_mark hop, ihr⟩⟩
  | negate hop _ _ ih => exact List.forall_mem_cons.2 ⟨.of_mark hop, ih⟩
  | memberNegate hdot hop _ _ _ ihl ihr =>
    exact List.forall_mem_append.2
      ⟨ihl, List.forall_mem_cons.2 ⟨.of_mark hdot, List.forall_mem_cons.2 ⟨.of_mark hop, ihr⟩⟩⟩
  | construct ho hc _ hus _ iht ihi =>
    refine List.forall_mem_append.2 ⟨iht, List.forall_mem_cons.2 ⟨.of_mark ho, ?_⟩⟩
    refine List.forall_mem_append.2 ⟨hus.forall_mem ?_ fun t ht => .of_mark ht, ?_⟩
    · simpa using fun ts e hmem => ihi (ts, e) hmem
    · simpa using Token.Readable.of_mark hc
  | number hk hv => simpa [Token.Readable, hk] using Option.isSome_of_eq_some hv
  | string hk | symbol hk => simp [Token.Readable, hk]
  | parenthesised ho hc _ ih =>
    refine List.forall_mem_cons.2 ⟨.of_mark ho, List.forall_mem_append.2 ⟨ih, ?_⟩⟩
    simpa using Token.Readable.of_mark hc
  | group ho hc hus _ ihi =>
    refine List.forall_mem_cons.2 ⟨.of_mark ho, ?_⟩
    refine List.forall_mem_append.2 ⟨hus.forall_mem ?_ fun t ht => .of_mark ht, ?_⟩
    · simpa using fun ts e hmem => ihi (ts, e) hmem
    · simpa using Token.Readable.of_mark hc

end Derives

end ScriptFront
