import ScriptFront.Proofs.Local
import ScriptFront.Proofs.Print.Format

/-!
# The nodes of a program

`Program.stmts`, `Program.exprs` and `Program.types` list the statements, expressions and types of a
program at every depth. A node is well formed if what it holds itself makes sense, whatever stands below
it: operators are operators of its own sort, a constant has a value, the properties of an object type
can be told apart by their names, a size is one that can be stated, and each operator, name and text is
one that a token gave.

A grammar rule adds a single node to the nodes of its parts and writes all the tokens of the parts, so
what is derived from tokens is well formed over these tokens. All that is read is derived
(`derivesProgram_of_parse_ok`), hence well formed at every node (`parse_wellFormed`).
-/

namespace ScriptFront

/-! ## Listing the nodes -/

namespace Expr

mutual

/-- The expression and all expressions in it. -/
def nodes : Expr → List Expr
  | number v => [number v]
  | string text => [string text]
  | symbol name => [symbol name]
  | unary op e => unary op e :: e.nodes
  | binary op a b => binary op a b :: (a.nodes ++ b.nodes)
  | assign op a b => assign op a b :: (a.nodes ++ b.nodes)
  | construct name es => construct name es :: nodesAll es
  | group es => group es :: nodesAll es

/-- The expressions and all expressions in them. -/
def nodesAll : List Expr → List Expr
  | [] => []
  | e :: es => e.nodes ++ nodesAll es

end

theorem forall_mem_nodesAll {P : Expr → Prop} {es : List Expr} :
    (∀ node ∈ nodesAll es, P node) ↔ ∀ e ∈ es, ∀ node ∈ e.nodes, P node := by
  induction es with
  | nil => simp [nodesAll]
  | cons e es ih => rw [nodesAll, List.forall_mem_append, ih, List.forall_mem_cons]

end Expr

/-- The type and all types in it. -/
def TypeRef.nodes : TypeRef → List TypeRef
  | named name => [named name]
  | group element size => group element size :: element.nodes

namespace Stmt

mutual

/-- The statement and all statements in it. -/
def nodes : Stmt → List Stmt
  | block body => block body :: nodesAll body
  | expression e => [expression e]
  | declaration name constant binding => [declaration name constant binding]
  | object name properties => [object name properties]

/-- The statements and all statements in them. -/
def nodesAll : List Stmt → List Stmt
  | [] => []
  | s :: ss => s.nodes ++ nodesAll ss

end

theorem forall_mem_nodesAll {P : Stmt → Prop} {body : List Stmt} :
    (∀ node ∈ nodesAll body, P node) ↔ ∀ s ∈ body, ∀ node ∈ s.nodes, P node := by
  induction body with
  | nil => simp [nodesAll]
  | cons s ss ih => rw [nodesAll, List.forall_mem_append, ih, List.forall_mem_cons]

/-- The expressions that a statement holds itself. -/
def values : Stmt → List Expr
  | expression e => [e]
  | declaration _ _ binding => binding.value?.toList
  | block _ | object _ _ => []

/-- The types that a statement holds itself. -/
def types : Stmt → List TypeRef
  | declaration _ _ binding => binding.type?.toList
  | object _ properties => properties.map Property.type
  | block _ | expression _ => []

end Stmt

namespace Program

/-- The statements of a program at every depth. -/
def stmts (p : Program) : List Stmt := Stmt.nodesAll p.body

/-- The expressions of a program at every depth. -/
def exprs (p : Program) : List Expr := p.stmts.flatMap fun stmt => Expr.nodesAll stmt.values

/-- The types of a program at every depth. -/
def types (p : Program) : List TypeRef := p.stmts.flatMap fun stmt => stmt.types.flatMap TypeRef.nodes

end Program

/-! ## Well-formed nodes -/

/-- The token is one of the marks, with whatever lexeme. -/
def Token.HasMark (ms : List Mark) (t : Token) : Prop := ∃ m ∈ ms, t.kind = .mark m

section

variable (T : Token → Prop)

/-- Operators are of the node's own sort, and what the node holds itself was given by tokens in `T`. -/
def Expr.WellFormed : Expr → Prop
  | number v => ∃ lexeme, T ⟨.number, lexeme⟩ ∧ Double.read? lexeme = some v
  | string text => T ⟨.string, text⟩
  | symbol name => T (nameToken name)
  | unary op _ => T op ∧ op.HasMark Mark.negating
  | binary op _ _ => T op ∧ op.HasMark Mark.joining
  | assign op _ _ => T op ∧ op.HasMark Mark.assigning
  | construct name _ => T (nameToken name)
  | group _ => True

/-- Names were given by tokens in `T`, and sizes can be stated. -/
def TypeRef.WellFormed : TypeRef → Prop
  | named name => T (nameToken name)
  | group _ size => IsSize size

/-- Names were given by tokens in `T`, a constant has a value, and each property is found by its name. -/
def Stmt.WellFormed : Stmt → Prop
  | declaration name constant binding =>
    T (nameToken name) ∧ (constant = true → binding.value?.isSome)
  | object name properties =>
    T (nameToken name) ∧ (properties.map Property.name).Nodup ∧
      ∀ q ∈ properties, T (nameToken q.name) ∧ Property.find? q.name properties = some q
  | block _ | expression _ => True

/-- Each node of the program is well formed over the tokens in `T`. -/
structure Program.WellFormed (p : Program) : Prop where
  stmts : ∀ stmt ∈ p.stmts, stmt.WellFormed T
  exprs : ∀ e ∈ p.exprs, e.WellFormed T
  types : ∀ type ∈ p.types, type.WellFormed T

end

/-- Among properties of different names each is found by its own. -/
theorem Property.find?_name {q : Property} {properties : List Property}
    (hdistinct : (properties.map Property.name).Nodup) (hq : q ∈ properties) :
    find? q.name properties = some q := by
  unfold find?
  induction properties with
  | nil => cases hq
  | cons p ps ih =>
    obtain ⟨hp, hdistinct⟩ := List.nodup_cons.1 hdistinct
    rcases List.mem_cons.1 hq with rfl | hq
    · exact List.find?_cons_of_pos (by simp)
    · have hne : p.name ≠ q.name := by
        intro heq
        exact hp (heq ▸ List.mem_map_of_mem hq)
      rw [List.find?_cons_of_neg (by simpa using hne)]
      exact ih hdistinct hq

theorem StatesSize.isSize {e : Expr} {size : UInt64} (h : StatesSize e size) : IsSize size := by
  obtain ⟨v, n, -, hv, hn, hsize⟩ := h
  rcases Nat.lt_or_eq_of_le hn with hlt | rfl
  · refine .inr ⟨v, ?_⟩
    rw [hsize, Nat.min_eq_left (Nat.le_sub_one_of_lt hlt)]
    exact hv
  · exact .inl hsize

/-- The operators of every layer join two operands. -/
theorem Layer.joins_subset (l : Layer) : l.joins ⊆ Mark.joining := by
  cases l <;> decide

/-! ## What is derived is well formed -/

/-- The tokens of the parts are among those between which commas stand. -/
theorem Separated.mem {parts : List (List Token)} {us ts : List Token} {t : Token}
    (h : Separated parts us) (hts : ts ∈ parts) (ht : t ∈ ts) : t ∈ us := by
  induction h with
  | nil => cases hts
  | last us =>
    obtain rfl := List.mem_singleton.1 hts
    exact ht
  | comma _ _ ih =>
    rcases List.mem_cons.1 hts with rfl | hts
    · exact List.mem_append_left _ ht
    · exact List.mem_append_right _ (List.mem_cons_of_mem _ (ih hts))

section

variable {T : Token → Prop} {n : Nat} {ts : List Token}

/-- A name token is known by its kind and its lexeme. -/
theorem nameToken_lexeme {t : Token} (hk : t.kind = .identifier) : nameToken t.lexeme = t := by
  rw [nameToken, ← hk]

/-- What holds for the items of a list holds for all nodes of the list. -/
theorem Separated.forall_nodes {P : Expr → Prop} {items : List (List Token × Expr)}
    (h : Separated (items.map Prod.fst) ts) (hts : ∀ t ∈ ts, T t)
    (hitems : ∀ item ∈ items, (∀ t ∈ item.1, T t) → ∀ node ∈ item.2.nodes, P node) :
    ∀ node ∈ Expr.nodesAll (items.map Prod.snd), P node := by
  rw [Expr.forall_mem_nodesAll, List.forall_mem_map]
  intro item hitem
  apply hitems item hitem
  intro t ht
  exact hts t (h.mem (List.mem_map_of_mem hitem) ht)

theorem Derives.wellFormed {l : Layer} {e : Expr} (h : Derives n l ts e) (hts : ∀ t ∈ ts, T t) :
    ∀ node ∈ e.nodes, node.WellFormed T := by
  induction h with
  | lift _ _ ih => exact ih hts
  | assign hop hm _ _ ihl ihr =>
    simp only [List.forall_mem_append, List.forall_mem_cons] at hts
    obtain ⟨hleft, hmem, hright⟩ := hts
    simp only [Expr.nodes, List.forall_mem_append, List.forall_mem_cons]
    exact ⟨⟨hmem, _, hm, hop⟩, ihl hleft, ihr hright⟩
  | join _ hop hm _ _ ihl ihr =>
    simp only [List.forall_mem_append, List.forall_mem_cons] at hts
    obtain ⟨hleft, hmem, hright⟩ := hts
    simp only [Expr.nodes, List.forall_mem_append, List.forall_mem_cons]
    exact ⟨⟨hmem, _, Layer.joins_subset _ hm, hop⟩, ihl hleft, ihr hright⟩
  | negate hop hm _ ih =>
    obtain ⟨hmem, hts⟩ := List.forall_mem_cons.1 hts
    exact List.forall_mem_cons.2 ⟨⟨hmem, _, hm, hop⟩, ih hts⟩
  | memberNegate hdot hop hm _ _ ihl ihr =>
    simp only [List.forall_mem_append, List.forall_mem_cons] at hts
    obtain ⟨hleft, hmemDot, hmem, hright⟩ := hts
    simp only [Expr.nodes, List.forall_mem_append, List.forall_mem_cons]
    exact ⟨⟨hmemDot, .dot, by decide, hdot⟩, ihl hleft, ⟨hmem, _, hm, hop⟩, ihr hright⟩
  | member hdot _ _ ihl ihr =>
    simp only [List.forall_mem_append, List.forall_mem_cons] at hts
    obtain ⟨hleft, hmem, hright⟩ := hts
    simp only [Expr.nodes, List.forall_mem_append, List.forall_mem_cons]
    exact ⟨⟨hmem, .dot, by decide, hdot⟩, ihl hleft, ihr hright⟩
  | construct _ _ _ hus _ iht ihi =>
    simp only [List.forall_mem_append, List.forall_mem_cons] at hts
    obtain ⟨htarget, -, harguments, -⟩ := hts
    -- the name is the one of the symbol that stands before the arguments
    have hname := iht htarget _ List.mem_cons_self
    exact List.forall_mem_cons.2 ⟨hname, hus.forall_nodes harguments ihi⟩
  | number hk hv =>
    rw [Expr.nodes, List.forall_mem_singleton]
    refine ⟨_, ?_, hv⟩
    rw [← hk]
    exact List.forall_mem_singleton.1 hts
  | string hk =>
    rw [Expr.nodes, List.forall_mem_singleton]
    rw [Expr.WellFormed, ← hk]
    exact List.forall_mem_singleton.1 hts
  | symbol hk =>
    rw [Expr.nodes, List.forall_mem_singleton]
    rw [Expr.WellFormed, nameToken_lexeme hk]
    exact List.forall_mem_singleton.1 hts
  | parenthesised _ _ _ ih =>
    simp only [List.forall_mem_append, List.forall_mem_cons] at hts
    exact ih hts.2.1
  | group _ _ hus _ ihi =>
    simp only [List.forall_mem_append, List.forall_mem_cons] at hts
    exact List.forall_mem_cons.2 ⟨trivial, hus.forall_nodes hts.2.1 ihi⟩

theorem DerivesType.wellFormed {type : TypeRef} (h : DerivesType n ts type) (hts : ∀ t ∈ ts, T t) :
    ∀ node ∈ type.nodes, node.WellFormed T := by
  induction h with
  | named hk =>
    rw [TypeRef.nodes, List.forall_mem_singleton]
    rw [TypeRef.WellFormed, nameToken_lexeme hk]
    exact List.forall_mem_singleton.1 hts
  | group _ _ _ _ _ _ hsize ih =>
    simp only [List.forall_mem_append, List.forall_mem_cons] at hts
    obtain ⟨-, -, helement, -⟩ := hts
    exact List.forall_mem_cons.2 ⟨hsize.isSize, ih helement⟩

/-- The statement and all that it holds itself are well formed; the statements in it are not asked. -/
structure Stmt.Sound (T : Token → Prop) (stmt : Stmt) : Prop where
  own : stmt.WellFormed T
  values : ∀ e ∈ stmt.values, ∀ node ∈ e.nodes, node.WellFormed T
  types : ∀ type ∈ stmt.types, ∀ node ∈ type.nodes, node.WellFormed T

theorem DerivesAnnotation.wellFormed {type? : Option TypeRef} (h : DerivesAnnotation n ts type?)
    (hts : ∀ t ∈ ts, T t) : ∀ type ∈ type?.toList, ∀ node ∈ type.nodes, node.WellFormed T := by
  cases h with
  | none => simp
  | some _ h => exact List.forall_mem_singleton.2 (h.wellFormed (List.forall_mem_cons.1 hts).2)

theorem DerivesInitializer.wellFormed {value? : Option Expr} (h : DerivesInitializer n ts value?)
    (hts : ∀ t ∈ ts, T t) : ∀ e ∈ value?.toList, ∀ node ∈ e.nodes, node.WellFormed T := by
  cases h with
  | none => simp
  | some _ h => exact List.forall_mem_singleton.2 (h.wellFormed (List.forall_mem_cons.1 hts).2)

theorem DerivesProperty.wellFormed {q : Property} (h : DerivesProperty n ts q)
    (hts : ∀ t ∈ ts, T t) :
    T (nameToken q.name) ∧ ∀ node ∈ q.type.nodes, node.WellFormed T := by
  obtain ⟨hname, -, htype, -⟩ := h
  simp only [List.forall_mem_append, List.forall_mem_cons] at hts
  obtain ⟨hmem, -, hts, -⟩ := hts
  rw [nameToken_lexeme hname]
  exact ⟨hmem, htype.wellFormed hts⟩

theorem DerivesStmt.sound {stmt : Stmt} (h : DerivesStmt n ts stmt) (hts : ∀ t ∈ ts, T t) :
    ∀ node ∈ stmt.nodes, node.Sound T := by
  induction h with
  | block _ _ _ ih =>
    simp only [List.forall_mem_append, List.forall_mem_cons, List.forall_mem_flatMap] at hts
    obtain ⟨-, hbody, -⟩ := hts
    refine List.forall_mem_cons.2 ⟨⟨trivial, nofun, nofun⟩, ?_⟩
    rw [Stmt.forall_mem_nodesAll, List.forall_mem_map]
    intro item hitem
    exact ih item hitem (hbody item hitem)
  | declaration _ hname htype hvalue _ hconstant =>
    simp only [List.forall_mem_append, List.forall_mem_cons] at hts
    obtain ⟨-, hmem, hannotation, hinitializer, -⟩ := hts
    rw [Stmt.nodes, List.forall_mem_singleton]
    constructor
    · rw [Stmt.WellFormed, nameToken_lexeme hname]
      exact ⟨hmem, hconstant⟩
    · exact hvalue.wellFormed hinitializer
    · exact htype.wellFormed hannotation
  | @object _ _ _ _ _ items _ hname _ _ hitems hdistinct =>
    simp only [List.forall_mem_append, List.forall_mem_cons, List.forall_mem_flatMap] at hts
    obtain ⟨-, hmem, -, hproperties, -⟩ := hts
    have hproperty (q) (hq : q ∈ items.map Prod.snd) :
        T (nameToken q.name) ∧ ∀ node ∈ q.type.nodes, node.WellFormed T := by
      obtain ⟨item, hitem, rfl⟩ := List.mem_map.1 hq
      exact (hitems item hitem).wellFormed (hproperties item hitem)
    have hnames : ((items.map Prod.snd).map Property.name).Nodup := by
      rw [List.map_map]
      exact hdistinct
    rw [Stmt.nodes, List.forall_mem_singleton]
    constructor
    · rw [Stmt.WellFormed, nameToken_lexeme hname]
      exact ⟨hmem, hnames, fun q hq => ⟨(hproperty q hq).1, Property.find?_name hnames hq⟩⟩
    · nofun
    · exact List.forall_mem_map.2 fun q hq => (hproperty q hq).2
  | expression h _ =>
    obtain ⟨hts, -⟩ := List.forall_mem_append.1 hts
    rw [Stmt.nodes, List.forall_mem_singleton]
    exact ⟨trivial, List.forall_mem_singleton.2 (h.wellFormed hts), nofun⟩

theorem DerivesProgram.wellFormed {p : Program} (h : DerivesProgram n ts p) (hts : ∀ t ∈ ts, T t) :
    p.WellFormed T := by
  obtain ⟨items, hitems, rfl, hbody⟩ := h
  rw [List.forall_mem_flatMap] at hts
  have hstmts : ∀ stmt ∈ p.stmts, stmt.Sound T := by
    rw [Program.stmts, hbody, Stmt.forall_mem_nodesAll, List.forall_mem_map]
    intro item hitem
    exact (hitems item hitem).sound (hts item hitem)
  constructor
  · intro stmt hstmt
    exact (hstmts stmt hstmt).own
  · rw [Program.exprs, List.forall_mem_flatMap]
    intro stmt hstmt
    exact Expr.forall_mem_nodesAll.2 (hstmts stmt hstmt).values
  · rw [Program.types, List.forall_mem_flatMap]
    intro stmt hstmt
    exact List.forall_mem_flatMap.2 (hstmts stmt hstmt).types

end

/-! ## What is read is well formed -/

/-- The program that is read is the one that the grammar derives from the tokens before an end token. -/
theorem derivesProgram_of_parse_ok {tokens : List Token} {p : Program} (h : parse tokens = .ok p) :
    ∃ ts k rest, tokens = ts ++ k :: rest ∧ k.kind = .endOfInput ∧ DerivesProgram maxNesting ts p := by
  obtain ⟨s, hs⟩ := Stream.terminated_iff.1 (terminated_of_parse h)
  obtain ⟨-, hrest, hclosed⟩ := Stream.of_ofTokens hs
  obtain ⟨body, s', hrun, rfl⟩ := statements_done_of_parse hs h
  obtain ⟨ts, hpass, hstop, hderives⟩ := Parse.statements_sound hclosed hrun
  exact ⟨ts, s'.current, s'.ahead, hrest.symm.trans hpass.rest, hstop, hderives⟩

/-- Each node of a program that is read, at every depth, is well formed over the tokens it is read from:
constants have values, properties are told apart by their names, operators and sizes are such as the
node can have, and what the node holds was given by a token. -/
theorem parse_wellFormed {tokens : List Token} {p : Program} (h : parse tokens = .ok p) :
    p.WellFormed (· ∈ tokens) := by
  obtain ⟨ts, k, rest, rfl, -, hderives⟩ := derivesProgram_of_parse_ok h
  apply hderives.wellFormed
  intro t ht
  exact List.mem_append_left _ ht

/-- `{ obj p { x : int; y : int; } const d = -p(x).y; }`, with a lexeme of its own for the dash. -/
theorem parse_wellFormed_nested :
    (Program.mk [.block [.object "p" [⟨"x", .named "int"⟩, ⟨"y", .named "int"⟩],
        .declaration "d" true (.inferred (.unary ⟨.mark .dash, "minus"⟩
          (.binary ⟨.mark .dot, "."⟩ (.construct "p" [.symbol "x"]) (.symbol "y"))))]]).WellFormed
      (· ∈ [⟨.mark .openCurly, "\x7b"⟩, ⟨.word .obj, "obj"⟩, ⟨.identifier, "p"⟩,
        ⟨.mark .openCurly, "\x7b"⟩, ⟨.identifier, "x"⟩, ⟨.mark .colon, ":"⟩, ⟨.identifier, "int"⟩,
        ⟨.mark .semicolon, ";"⟩, ⟨.identifier, "y"⟩, ⟨.mark .colon, ":"⟩, ⟨.identifier, "int"⟩,
        ⟨.mark .semicolon, ";"⟩, ⟨.mark .closeCurly, "\x7d"⟩, ⟨.word .const, "const"⟩,
        ⟨.identifier, "d"⟩, ⟨.mark .assign, "="⟩, ⟨.mark .dash, "minus"⟩, ⟨.identifier, "p"⟩,
        ⟨.mark .openParen, "("⟩, ⟨.identifier, "x"⟩, ⟨.mark .closeParen, ")"⟩, ⟨.mark .dot, "."⟩,
        ⟨.identifier, "y"⟩, ⟨.mark .semicolon, ";"⟩, ⟨.mark .closeCurly, "\x7d"⟩,
        Token.endOfInput]) :=
  parse_wellFormed (by with_unfolding_all rfl)

end ScriptFront
