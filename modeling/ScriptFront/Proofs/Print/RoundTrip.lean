import ScriptFront.Proofs.Print.Format
import ScriptFront.Proofs.Program.Exact

/-!
# What is written out is read back

A program that is written out is derived by the grammar from the tokens that write it, within the levels
of nesting that were counted for it (`Program.Writes.derives`), and these tokens are well formed
(`Program.Writes.wellFormed`), so their text is scanned and read as that program
(`parseSource_render`).
-/

namespace ScriptFront

/-! ## Parts in parentheses and lists -/

theorem separated_cons_cons (ts us : List Token) (parts : List (List Token)) :
    separated (ts :: us :: parts) = ts ++ Mark.comma.token :: separated (us :: parts) := by
  rw [separated, List.intercalate_cons_cons, List.append_assoc]
  rfl

theorem separated_separated (parts : List (List Token)) : Separated parts (separated parts) := by
  induction parts with
  | nil => exact .nil
  | cons ts parts ih =>
    cases parts with
    | nil =>
      rw [separated, List.intercalate_singleton]
      exact .last ts
    | cons us parts =>
      rw [separated_cons_cons]
      exact .comma rfl ih

/-- What holds of the parts' tokens and of the comma holds throughout. -/
theorem forall_mem_separated {P : Token → Prop} {parts : List (List Token)}
    (hparts : ∀ ts ∈ parts, ∀ t ∈ ts, P t) (hcomma : P Mark.comma.token) :
    ∀ t ∈ separated parts, P t := by
  induction parts with
  | nil => exact nofun
  | cons ts parts ih =>
    obtain ⟨hts, hparts⟩ := List.forall_mem_cons.1 hparts
    cases parts with
    | nil =>
      rw [separated, List.intercalate_singleton]
      exact hts
    | cons us parts =>
      rw [separated_cons_cons]
      exact List.forall_mem_append.2 ⟨hts, List.forall_mem_cons.2 ⟨hcomma, ih hparts⟩⟩

theorem forall_mem_inParens {P : Token → Prop} {ts : List Token} (hts : ∀ t ∈ ts, P t)
    (hopen : P Mark.openParen.token) (hclose : P Mark.closeParen.token) :
    ∀ t ∈ inParens ts, P t := by
  refine List.forall_mem_cons.2 ⟨hopen, List.forall_mem_append.2 ⟨hts, ?_⟩⟩
  exact List.forall_mem_singleton.2 hclose

/-- Items that can each be written can be written as a list. -/
theorem exists_items {α : Type} {W : α → List Token → Prop} {as : List α}
    (h : ∀ a ∈ as, ∃ ts, W a ts) :
    ∃ items : List (List Token × α), items.map Prod.snd = as ∧ ∀ item ∈ items, W item.2 item.1 := by
  induction as with
  | nil => exact ⟨[], rfl, nofun⟩
  | cons a as ih =>
    obtain ⟨⟨ts, hts⟩, has⟩ := List.forall_mem_cons.1 h
    obtain ⟨items, rfl, hitems⟩ := ih has
    exact ⟨(ts, a) :: items, rfl, List.forall_mem_cons.2 ⟨hts, hitems⟩⟩

theorem le_foldr_max {ns : List Nat} : ∀ n ∈ ns, n ≤ ns.foldr max 0 := by
  induction ns with
  | nil => exact nofun
  | cons n ns ih =>
    refine List.forall_mem_cons.2 ⟨Nat.le_max_left _ _, fun m hm => ?_⟩
    exact Nat.le_trans (ih m hm) (Nat.le_max_right _ _)

/-- What holds of an item within the levels that it opens holds of all items within the levels that the
deepest of them opens. -/
theorem forall_items {α : Type} {P : α → Prop} {nesting : α → Nat} {D : Nat → List Token → α → Prop}
    {items : List (List Token × α)} {n : Nat}
    (h : ∀ item ∈ items, ∀ {n : Nat}, P item.2 → nesting item.2 ≤ n → D n item.1 item.2)
    (hp : ∀ a ∈ items.map Prod.snd, P a)
    (hn : ((items.map Prod.snd).map nesting).foldr max 0 ≤ n) :
    ∀ item ∈ items, D n item.1 item.2 := by
  intro item hitem
  have hmem : item.2 ∈ items.map Prod.snd := List.mem_map_of_mem hitem
  have hle := le_foldr_max _ (List.mem_map_of_mem (f := nesting) hmem)
  exact h item hitem (hp item.2 hmem) (Nat.le_trans hle hn)

/-- In parentheses an expression stands in any layer, one level deeper. -/
theorem Derives.inParens {n : Nat} {ts : List Token} {e : Expr} (h : Derives n .assignment ts e)
    (l : Layer) : Derives (n + 1) l (inParens ts) e := by
  have hatom : Derives (n + 1) .atom (ScriptFront.inParens ts) e := .parenthesised rfl rfl h
  refine hatom.loosen ?_
  cases l <;> decide

/-! ## Expressions -/

theorem Mark.exists_joins {m : Mark} (h : m ∈ joining) :
    m = .dot ∨ ∃ l l' : Layer, l.tighter? = some l' ∧ m ∈ l.joins := by
  have hlayers : m = .dot ∨ ∃ l ∈ [Layer.logical, .relational, .additive, .multiplicative],
      m ∈ l.joins := by
    revert m
    decide
  obtain hdot | ⟨l, hl, hm⟩ := hlayers
  · exact .inl hdot
  · refine .inr ⟨l, ?_⟩
    simp only [List.mem_cons, List.not_mem_nil, or_false] at hl
    rcases hl with rfl | rfl | rfl | rfl <;> exact ⟨_, rfl, hm⟩

namespace Expr

variable {e : Expr} {ts : List Token} {n : Nat}

theorem nestingAll_eq (es : List Expr) : nestingAll es = (es.map nesting).foldr max 0 := by
  induction es with
  | nil => rfl
  | cons e es ih => rw [nestingAll, ih, List.map_cons, List.foldr_cons]

theorem Printable.exists_writes (h : e.Printable) : ∃ ts, e.Writes ts := by
  induction h with
  | number h =>
    obtain ⟨lexeme, hl, hv⟩ := h
    exact ⟨_, .number hl hv⟩
  | string text => exact ⟨_, .string text⟩
  | symbol => exact ⟨_, .symbol _⟩
  | unary _ _ ih =>
    obtain ⟨ts, hts⟩ := ih
    exact ⟨_, .unary hts⟩
  | binary _ _ _ iha ihb =>
    obtain ⟨ts, hts⟩ := iha
    obtain ⟨us, hus⟩ := ihb
    exact ⟨_, .binary hts hus⟩
  | assign _ _ _ iha ihb =>
    obtain ⟨ts, hts⟩ := iha
    obtain ⟨us, hus⟩ := ihb
    exact ⟨_, .assign hts hus⟩
  | construct _ _ ih =>
    obtain ⟨items, rfl, hitems⟩ := exists_items ih
    exact ⟨_, .construct hitems⟩
  | group _ ih =>
    obtain ⟨items, rfl, hitems⟩ := exists_items ih
    exact ⟨_, .group hitems⟩

/-- An expression that is written out is an expression of the grammar. -/
theorem Writes.derives (h : e.Writes ts) (hp : e.Printable) (hn : e.nesting ≤ n) :
    Derives n .assignment ts e := by
  induction h generalizing n with
  | number _ hv =>
    obtain ⟨k, rfl⟩ : ∃ k, n = k + 1 := ⟨n - 1, by simp only [nesting] at hn; omega⟩
    exact .loosen (.number rfl hv) (by decide)
  | string =>
    obtain ⟨k, rfl⟩ : ∃ k, n = k + 1 := ⟨n - 1, by simp only [nesting] at hn; omega⟩
    exact .loosen (.string rfl) (by decide)
  | symbol =>
    obtain ⟨k, rfl⟩ : ∃ k, n = k + 1 := ⟨n - 1, by simp only [nesting] at hn; omega⟩
    exact .loosen (.symbol rfl) (by decide)
  | unary _ ih =>
    cases hp with
    | unary hop he =>
      obtain ⟨m, hm, rfl⟩ := hop
      simp only [nesting] at hn
      obtain ⟨k, rfl⟩ : ∃ k, n = k + 2 := ⟨n - 2, by omega⟩
      exact .loosen (.negate rfl hm ((ih he (by omega)).inParens .unary)) (by decide)
  | binary _ _ iha ihb =>
    cases hp with
    | binary hop ha hb =>
      obtain ⟨m, hm, rfl⟩ := hop
      simp only [nesting] at hn
      obtain ⟨k, rfl⟩ : ∃ k, n = k + 2 := ⟨n - 2, by omega⟩
      have hleft := iha ha (n := k + 1) (by omega)
      have hright := ihb hb (n := k) (by omega)
      obtain rfl | ⟨l, l', hl, hm⟩ := m.exists_joins hm
      · exact .loosen (.member rfl (hleft.inParens .primary) (hright.inParens .atom)) (by decide)
      · exact .loosen (.join hl rfl hm (hleft.inParens l) (hright.inParens l')) (by cases l <;> decide)
  | assign _ _ iha ihb =>
    cases hp with
    | assign hop ha hb =>
      obtain ⟨m, hm, rfl⟩ := hop
      simp only [nesting] at hn
      obtain ⟨k, rfl⟩ : ∃ k, n = k + 2 := ⟨n - 2, by omega⟩
      have hleft := iha ha (n := k + 1) (by omega)
      have hright := ihb hb (n := k) (by omega)
      exact .assign rfl hm (hleft.inParens .logical) (hright.inParens .assignment)
  | @construct name items _ ih =>
    cases hp with
    | construct hname harguments =>
      simp only [nesting, nestingAll_eq] at hn
      obtain ⟨k, rfl⟩ : ∃ k, n = k + 1 := ⟨n - 1, by omega⟩
      have hitems := forall_items ih harguments (Nat.le_of_succ_le_succ hn)
      have hsymbol : Derives (k + 1) .atom [nameToken name] (.symbol name) := .symbol rfl
      have hparts := separated_separated (items.map Prod.fst)
      exact .loosen (.construct rfl rfl hsymbol hparts hitems) (by decide)
  | @group items _ ih =>
    cases hp with
    | group helements =>
      simp only [nesting, nestingAll_eq] at hn
      obtain ⟨k, rfl⟩ : ∃ k, n = k + 1 := ⟨n - 1, by omega⟩
      have hitems := forall_items ih helements (Nat.le_of_succ_le_succ hn)
      have hparts := separated_separated (items.map Prod.fst)
      exact .loosen (.group rfl rfl hparts hitems) (by decide)

theorem Writes.wellFormed (h : e.Writes ts) (hp : e.Printable) : ∀ t ∈ ts, t.WellFormed := by
  have parens {ts : List Token} (hts : ∀ t ∈ ts, t.WellFormed) : ∀ t ∈ inParens ts, t.WellFormed :=
    forall_mem_inParens hts (.mark _) (.mark _)
  have items {items : List (List Token × Expr)}
      (ih : ∀ item ∈ items, item.2.Printable → ∀ t ∈ item.1, t.WellFormed)
      (hp : ∀ e ∈ items.map Prod.snd, e.Printable) :
      ∀ t ∈ separated (items.map Prod.fst), t.WellFormed := by
    refine forall_mem_separated (fun ts hts => ?_) (.mark _)
    obtain ⟨item, hitem, rfl⟩ := List.mem_map.1 hts
    exact ih item hitem (hp item.2 (List.mem_map_of_mem hitem))
  induction h with
  | number hl => exact List.forall_mem_singleton.2 (.number hl)
  | string text => exact List.forall_mem_singleton.2 (.string text)
  | symbol =>
    cases hp with
    | symbol hname => exact List.forall_mem_singleton.2 (.identifier hname)
  | unary _ ih =>
    cases hp with
    | unary hop he =>
      obtain ⟨m, -, rfl⟩ := hop
      exact List.forall_mem_cons.2 ⟨.mark m, parens (ih he)⟩
  | binary _ _ iha ihb =>
    cases hp with
    | binary hop ha hb =>
      obtain ⟨m, -, rfl⟩ := hop
      exact List.forall_mem_append.2
        ⟨parens (iha ha), List.forall_mem_cons.2 ⟨.mark m, parens (ihb hb)⟩⟩
  | assign _ _ iha ihb =>
    cases hp with
    | assign hop ha hb =>
      obtain ⟨m, -, rfl⟩ := hop
      exact List.forall_mem_append.2
        ⟨parens (iha ha), List.forall_mem_cons.2 ⟨.mark m, parens (ihb hb)⟩⟩
  | construct _ ih =>
    cases hp with
    | construct hname harguments =>
      exact List.forall_mem_cons.2 ⟨.identifier hname, parens (items ih harguments)⟩
  | group _ ih =>
    cases hp with
    | group helements =>
      refine List.forall_mem_cons.2 ⟨.mark _, List.forall_mem_append.2 ⟨items ih helements, ?_⟩⟩
      exact List.forall_mem_singleton.2 (.mark _)

end Expr

/-! ## Types -/

/-- A size that can be written is stated by its numeral. -/
theorem IsSize.exists_statesSize {size : UInt64} (h : IsSize size) :
    ∃ v, Double.read? size.toNat.repr = some v ∧ StatesSize (.number v) size := by
  have hlt : size.toNat < 2 ^ 64 := size.toNat_lt
  rcases h with hmax | ⟨d, hd⟩
  · -- the largest size is no value, and the number that it is read as stands for it
    refine ⟨_, Double.read?_repr _, _, 2 ^ 64, .number _, ?_, Nat.le_refl _, hmax⟩
    rw [hmax]
    exact Double.isNat_ofNat_max
  · obtain ⟨v, hv, hnat⟩ := Double.exists_read?_repr hlt hd
    refine ⟨v, hv, v, size.toNat, .number v, hnat, Nat.le_of_lt hlt, ?_⟩
    exact (Nat.min_eq_left (Nat.le_sub_one_of_lt hlt)).symm

namespace TypeRef

variable {type : TypeRef} {n : Nat}

theorem derives (hp : type.Printable) (hn : type.nesting ≤ n) : DerivesType n type.tokens type := by
  induction type generalizing n with
  | named name =>
    obtain ⟨k, rfl⟩ : ∃ k, n = k + 1 := ⟨n - 1, by simp only [nesting] at hn; omega⟩
    exact .named rfl
  | group element size ih =>
    obtain ⟨helement, hsize⟩ := hp
    obtain ⟨v, hv, hstates⟩ := hsize.exists_statesSize
    simp only [nesting] at hn
    obtain ⟨k, rfl⟩ : ∃ k, n = k + 2 := ⟨n - 2, by omega⟩
    have hnumeral : Derives (k + 1) .atom [⟨.number, size.toNat.repr⟩] (.number v) := .number rfl hv
    exact .group rfl rfl (ih helement (by omega)) rfl (hnumeral.loosen (by decide)) rfl hstates

theorem wellFormed (hp : type.Printable) : ∀ t ∈ type.tokens, t.WellFormed := by
  induction type with
  | named name => exact List.forall_mem_singleton.2 (.identifier hp)
  | group element size ih =>
    have hnumeral : IsNumeral size.toNat.repr.toList := .whole Double.repr_ne_nil Double.isDigit_of_mem_repr
    have hsize : ∀ t ∈ [(⟨.number, size.toNat.repr⟩ : Token)] ++ [Mark.greater.token], t.WellFormed :=
      List.forall_mem_cons.2 ⟨.number hnumeral, List.forall_mem_singleton.2 (.mark _)⟩
    refine List.forall_mem_cons.2 ⟨.word _, List.forall_mem_cons.2 ⟨.mark _, ?_⟩⟩
    exact List.forall_mem_append.2 ⟨ih hp.1, List.forall_mem_cons.2 ⟨.mark _, hsize⟩⟩

theorem afterColon_derives {type? : Option TypeRef} (hp : ∀ type ∈ type?, type.Printable)
    (hn : ∀ type ∈ type?, type.nesting ≤ n) : DerivesAnnotation n (afterColon type?) type? := by
  cases type? with
  | none => exact .none
  | some type => exact .some rfl (derives (hp type rfl) (hn type rfl))

theorem afterColon_wellFormed {type? : Option TypeRef} (hp : ∀ type ∈ type?, type.Printable) :
    ∀ t ∈ afterColon type?, t.WellFormed := by
  cases type? with
  | none => exact nofun
  | some type => exact List.forall_mem_cons.2 ⟨.mark _, wellFormed (hp type rfl)⟩

end TypeRef

namespace Property

variable {p : Property}

theorem derives {n : Nat} (hp : p.type.Printable) (hn : p.type.nesting ≤ n) :
    DerivesProperty n p.tokens p :=
  .mk rfl rfl (TypeRef.derives hp hn) rfl

theorem wellFormed (hname : IsName p.name) (hp : p.type.Printable) :
    ∀ t ∈ p.tokens, t.WellFormed := by
  refine List.forall_mem_cons.2 ⟨.identifier hname, List.forall_mem_cons.2 ⟨.mark _, ?_⟩⟩
  exact List.forall_mem_append.2 ⟨TypeRef.wellFormed hp, List.forall_mem_singleton.2 (.mark _)⟩

end Property

/-! ## Statements -/

theorem Expr.WritesInitializer.derives {value? : Option Expr} {us : List Token} {n : Nat}
    (h : WritesInitializer value? us) (hp : ∀ value ∈ value?, value.Printable)
    (hn : ∀ value ∈ value?, value.nesting + 1 ≤ n) : DerivesInitializer n us value? := by
  cases h with
  | none => exact .none
  | @some value _ h =>
    have hvalue := hn value rfl
    obtain ⟨k, rfl⟩ : ∃ k, n = k + 1 := ⟨n - 1, by omega⟩
    exact .some rfl ((h.derives (hp value rfl) (by omega)).inParens .logical)

theorem Expr.WritesInitializer.wellFormed {value? : Option Expr} {us : List Token}
    (h : WritesInitializer value? us) (hp : ∀ value ∈ value?, value.Printable) :
    ∀ t ∈ us, t.WellFormed := by
  cases h with
  | none => exact nofun
  | @some value _ h =>
    have hvalue := h.wellFormed (hp value rfl)
    exact List.forall_mem_cons.2 ⟨.mark _, forall_mem_inParens hvalue (.mark _) (.mark _)⟩

theorem Binding.nesting_type {binding : Binding} :
    ∀ type ∈ binding.type?, type.nesting ≤ binding.nesting := by
  intro type h
  cases binding with
  | typed => cases h; exact Nat.le_refl _
  | inferred => cases h
  | annotated => cases h; exact Nat.le_max_left _ _

theorem Binding.nesting_value {binding : Binding} :
    ∀ value ∈ binding.value?, value.nesting + 1 ≤ binding.nesting := by
  intro value h
  cases binding with
  | typed => cases h
  | inferred => cases h; exact Nat.le_refl _
  | annotated => cases h; exact Nat.le_max_right _ _

namespace Stmt

variable {stmt : Stmt} {ts : List Token} {n : Nat}

theorem nestingAll_eq (stmts : List Stmt) :
    nestingAll stmts = (stmts.map nesting).foldr max 0 := by
  induction stmts with
  | nil => rfl
  | cons stmt stmts ih => rw [nestingAll, ih, List.map_cons, List.foldr_cons]

theorem Printable.exists_writes (h : stmt.Printable) : ∃ ts, stmt.Writes ts := by
  induction h with
  | block _ ih =>
    obtain ⟨items, rfl, hitems⟩ := exists_items ih
    exact ⟨_, .block hitems⟩
  | expression he =>
    obtain ⟨ts, hts⟩ := he.exists_writes
    exact ⟨_, .expression hts⟩
  | @declaration _ _ binding _ _ hvalue _ =>
    have hwrites : ∃ us, Expr.WritesInitializer binding.value? us := by
      cases hbinding : binding.value? with
      | none => exact ⟨_, .none⟩
      | some value =>
        obtain ⟨ts, hts⟩ := (hvalue value hbinding).exists_writes
        exact ⟨_, .some hts⟩
    obtain ⟨us, hus⟩ := hwrites
    exact ⟨_, .declaration hus⟩
  | object => exact ⟨_, .object _ _⟩

/-- A statement that is written out is a statement of the grammar. -/
theorem Writes.derives (h : stmt.Writes ts) (hp : stmt.Printable) (hn : stmt.nesting ≤ n) :
    DerivesStmt n ts stmt := by
  induction h generalizing n with
  | @block items _ ih =>
    cases hp with
    | block hbody =>
      simp only [nesting, nestingAll_eq] at hn
      obtain ⟨k, rfl⟩ : ∃ k, n = k + 1 := ⟨n - 1, by omega⟩
      exact .block rfl rfl (forall_items ih hbody (Nat.le_of_succ_le_succ hn))
  | expression h =>
    cases hp with
    | expression he =>
      simp only [nesting] at hn
      exact .expression (h.derives he hn) rfl
  | @declaration name constant binding us h =>
    cases hp with
    | declaration hname htype hvalue hconstant =>
      simp only [nesting] at hn
      have htype := TypeRef.afterColon_derives htype fun type htype =>
        Nat.le_trans (Binding.nesting_type type htype) hn
      have hvalue := h.derives hvalue fun value hvalue =>
        Nat.le_trans (Binding.nesting_value value hvalue) hn
      exact .declaration rfl rfl htype hvalue rfl hconstant
  | object name properties =>
    cases hp with
    | object hname hproperties hdistinct =>
      simp only [nesting] at hn
      have hitems : ∀ item ∈ properties.map fun p => (p.tokens, p),
          DerivesProperty n item.1 item.2 := by
        refine List.forall_mem_map.2 fun p hmem => Property.derives (hproperties p hmem).2 ?_
        exact Nat.le_trans (le_foldr_max _ (List.mem_map.2 ⟨p, hmem, rfl⟩)) hn
      have hnames : ((properties.map fun p => (p.tokens, p)).map fun item => item.2.name).Nodup := by
        rw [List.map_map]
        exact hdistinct
      have hstmt : DerivesStmt n (Word.obj.token :: nameToken name :: Mark.openCurly.token ::
            ((properties.map fun p => (p.tokens, p)).flatMap Prod.fst ++ [Mark.closeCurly.token]))
          (.object name ((properties.map fun p => (p.tokens, p)).map Prod.snd)) :=
        .object rfl rfl rfl rfl hitems hnames
      have hsnd : Prod.snd ∘ (fun p : Property => (p.tokens, p)) = id := rfl
      rwa [List.flatMap_map, List.map_map, hsnd, List.map_id] at hstmt

theorem Writes.wellFormed (h : stmt.Writes ts) (hp : stmt.Printable) : ∀ t ∈ ts, t.WellFormed := by
  induction h with
  | block _ ih =>
    cases hp with
    | block hbody =>
      have hitems := forall_mem_flatMap_fst fun item hitem =>
        ih item hitem (hbody item.2 (List.mem_map_of_mem hitem))
      refine List.forall_mem_cons.2 ⟨.mark _, List.forall_mem_append.2 ⟨hitems, ?_⟩⟩
      exact List.forall_mem_singleton.2 (.mark _)
  | expression h =>
    cases hp with
    | expression he =>
      exact List.forall_mem_append.2 ⟨h.wellFormed he, List.forall_mem_singleton.2 (.mark _)⟩
  | declaration h =>
    cases hp with
    | declaration hname htype hvalue _ =>
      have hvalue := List.forall_mem_append.2
        ⟨h.wellFormed hvalue, List.forall_mem_singleton.2 (Token.WellFormed.mark .semicolon)⟩
      refine List.forall_mem_cons.2 ⟨.word _, List.forall_mem_cons.2 ⟨.identifier hname, ?_⟩⟩
      exact List.forall_mem_append.2 ⟨TypeRef.afterColon_wellFormed htype, hvalue⟩
  | object name properties =>
    cases hp with
    | object hname hproperties _ =>
      refine List.forall_mem_cons.2 ⟨.word _, List.forall_mem_cons.2 ⟨.identifier hname, ?_⟩⟩
      refine List.forall_mem_cons.2 ⟨.mark _, List.forall_mem_append.2 ⟨fun t ht => ?_, ?_⟩⟩
      · obtain ⟨p, hmem, ht⟩ := List.mem_flatMap.1 ht
        exact Property.wellFormed (hproperties p hmem).1 (hproperties p hmem).2 t ht
      · exact List.forall_mem_singleton.2 (.mark _)

end Stmt

/-! ## Programs -/

namespace Program

variable {p : Program} {ts : List Token} {n : Nat}

theorem Printable.exists_writes (h : p.Printable) : ∃ ts, p.Writes ts := by
  obtain ⟨items, heq, hitems⟩ := exists_items fun stmt hstmt => (h stmt hstmt).exists_writes
  exact ⟨_, items, hitems, heq.symm, rfl⟩

/-- A program that is written out is a program of the grammar. -/
theorem Writes.derives (h : p.Writes ts) (hp : p.Printable) (hn : p.nesting ≤ n) :
    DerivesProgram n ts p := by
  obtain ⟨items, hitems, hbody, rfl⟩ := h
  rw [Program.nesting, Stmt.nestingAll_eq, hbody] at hn
  have hstmts := forall_items (fun item hitem => (hitems item hitem).derives) (hbody ▸ hp) hn
  exact ⟨items, hstmts, rfl, hbody⟩

theorem Writes.wellFormed (h : p.Writes ts) (hp : p.Printable) : ∀ t ∈ ts, t.WellFormed := by
  obtain ⟨items, hitems, hbody, rfl⟩ := h
  refine forall_mem_flatMap_fst fun item hitem => (hitems item hitem).wellFormed ?_
  exact hp item.2 (hbody ▸ List.mem_map_of_mem hitem)

end Program

/-- A program that can be written out is read back from its text, whichever numerals are chosen. If it
nests no deeper than is allowed, this is certain; otherwise the one fault there can be is that it nests
too deeply. -/
theorem parseSource_render {p : Program} (hp : p.Printable) :
    (∃ ts, p.Writes ts) ∧ ∀ ts, p.Writes ts →
      (p.nesting ≤ maxNesting → parseSource (render ts) = .ok p) ∧
      (parseSource (render ts) = .ok p ∨
        parseSource (render ts) = .fault (.tooDeep maxNesting)) := by
  refine ⟨hp.exists_writes, fun ts hts => ?_⟩
  have htokens : tokenize (render ts) = .ok (ts ++ [.endOfInput]) :=
    tokenize_render (hts.wellFormed hp)
  have hderives : DerivesProgram (max p.nesting maxNesting) ts p :=
    hts.derives hp (Nat.le_max_left _ _)
  have hsource : parseSource (render ts) = parse (ts ++ [.endOfInput]) := by
    rw [parseSource, htokens]
  rw [hsource]
  have hending : Token.endOfInput.kind = .endOfInput := rfl
  obtain hok | ⟨hlt, hfault⟩ := parse_of_derivesProgram hending (Nat.le_max_right _ _) hderives
  · exact ⟨fun _ => hok, .inl hok⟩
  · exact ⟨fun hle => by omega, .inr hfault⟩

/-- A number and a string of a quote and a backslash, joined by a plus. -/
theorem parseSource_render_joined :
    parseSource "var s = ( ( 2 ) + ( \"\\x22\\\\\" ) ) ;" =
      .ok ⟨[.declaration "s" false (.inferred
        (.binary Mark.plus.token (.number ⟨false, 2 ^ 62, by decide⟩) (.string "\"\\")))]⟩ := by
  have hnumeral : IsNumeral "2".toList := .whole nofun (List.all_eq_true.1 rfl)
  have htwo : Double.read? "2" = some ⟨false, 2 ^ 62, by decide⟩ := by decide +kernel
  have hname : IsName "s" := ⟨⟨'s', [], rfl, rfl, nofun⟩, by intro w; cases w <;> decide⟩
  have hvalue : Expr.Printable (.binary Mark.plus.token (.number ⟨false, 2 ^ 62, by decide⟩) (.string "\"\\")) :=
    .binary ⟨.plus, by decide, rfl⟩ (.number ⟨"2", hnumeral, htwo⟩) (.string _)
  have hprintable : Program.Printable ⟨[.declaration "s" false (.inferred
      (.binary Mark.plus.token (.number ⟨false, 2 ^ 62, by decide⟩) (.string "\"\\")))]⟩ :=
    List.forall_mem_singleton.2 (.declaration hname nofun (fun _ h => by cases h; exact hvalue) nofun)
  have hexpr : Expr.Writes
      (.binary Mark.plus.token (.number ⟨false, 2 ^ 62, by decide⟩) (.string "\"\\")) _ :=
    .binary (.number hnumeral htwo) (.string _)
  have hstmt : Stmt.Writes (.declaration "s" false (.inferred _)) _ := .declaration (.some hexpr)
  have hwrites : Program.Writes ⟨[_]⟩ _ :=
    ⟨[(_, _)], List.forall_mem_singleton.2 hstmt, rfl, rfl⟩
  exact ((parseSource_render hprintable).2 _ hwrites).1 (by decide)

end ScriptFront
