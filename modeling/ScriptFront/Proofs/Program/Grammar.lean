import ScriptFront.Parse.Program
import ScriptFront.Proofs.Double
import ScriptFront.Proofs.Expression.Grammar

/-!
# The grammar of programs

Types, statements and programs over the layers of expressions. A production holds only where what it
writes makes sense: a declaration of a constant has a value, the properties of an object have different
names, and the size of a group is a number as written, whole and in range. A binding has a type or a
value by its own making, so a declaration with neither is written by nothing.

As in the grammar of expressions, the first argument bounds the levels of nesting that are open at once.
A type is a level like an expression, and so is a block; the other statements open none of their own.
-/

namespace ScriptFront

/-- The expression writes out the number: a number, or a dash before a number. -/
inductive WritesNumber : Expr → Double → Prop where
  | number (v : Double) : WritesNumber (.number v) v
  | negated {op : Token} (hop : op.kind = .mark .dash) (v : Double) :
      WritesNumber (.unary op (.number v)) v.neg

/-- The expression states the size of a group: a whole number up to `2 ^ 64`, which itself stands for the
largest size. -/
def StatesSize (e : Expr) (size : UInt64) : Prop :=
  ∃ v n, WritesNumber e v ∧ v.IsNat n ∧ n ≤ 2 ^ 64 ∧ size.toNat = min n (2 ^ 64 - 1)

/-- The tokens write the type, within so many levels of nesting. -/
inductive DerivesType : Nat → List Token → TypeRef → Prop where
  | named {n : Nat} {t : Token} (hk : t.kind = .identifier) :
      DerivesType (n + 1) [t] (.named t.lexeme)
  | group {n : Nat} {ts us : List Token} {grp less comma greater : Token} {element : TypeRef}
      {e : Expr} {size : UInt64} (hgrp : grp.kind = .word .grp) (hless : less.kind = .mark .less)
      (helement : DerivesType n ts element) (hcomma : comma.kind = .mark .comma)
      (he : Derives n .additive us e) (hgreater : greater.kind = .mark .greater)
      (hsize : StatesSize e size) :
      DerivesType (n + 1) (grp :: less :: (ts ++ comma :: (us ++ [greater]))) (.group element size)

/-- The tokens write the type of a declaration after its colon, or nothing. -/
inductive DerivesAnnotation : Nat → List Token → Option TypeRef → Prop where
  | none {n : Nat} : DerivesAnnotation n [] none
  | some {n : Nat} {ts : List Token} {colon : Token} {type : TypeRef}
      (hcolon : colon.kind = .mark .colon) (h : DerivesType n ts type) :
      DerivesAnnotation n (colon :: ts) (some type)

/-- The tokens write the value of a declaration after its equals sign, or nothing. -/
inductive DerivesInitializer : Nat → List Token → Option Expr → Prop where
  | none {n : Nat} : DerivesInitializer n [] none
  | some {n : Nat} {ts : List Token} {assign : Token} {value : Expr}
      (hassign : assign.kind = .mark .assign) (h : Derives n .logical ts value) :
      DerivesInitializer n (assign :: ts) (some value)

/-- The tokens write a property of an object type. -/
inductive DerivesProperty : Nat → List Token → Property → Prop where
  | mk {n : Nat} {ts : List Token} {name colon semicolon : Token} {type : TypeRef}
      (hname : name.kind = .identifier) (hcolon : colon.kind = .mark .colon)
      (htype : DerivesType n ts type) (hsemicolon : semicolon.kind = .mark .semicolon) :
      DerivesProperty n (name :: colon :: (ts ++ [semicolon])) ⟨name.lexeme, type⟩

/-- The tokens write the statement, within so many levels of nesting. -/
inductive DerivesStmt : Nat → List Token → Stmt → Prop where
  | block {n : Nat} {opening closing : Token} {items : List (List Token × Stmt)}
      (ho : opening.kind = .mark .openCurly) (hc : closing.kind = .mark .closeCurly)
      (hitems : ∀ item ∈ items, DerivesStmt n item.1 item.2) :
      DerivesStmt (n + 1) (opening :: (items.flatMap Prod.fst ++ [closing]))
        (.block (items.map Prod.snd))
  | declaration {n : Nat} {ts us : List Token} {opening name semicolon : Token} {constant : Bool}
      {binding : Binding} (ho : opening.kind = .word (if constant then .const else .var))
      (hname : name.kind = .identifier) (htype : DerivesAnnotation n ts binding.type?)
      (hvalue : DerivesInitializer n us binding.value?)
      (hsemicolon : semicolon.kind = .mark .semicolon)
      (hconstant : constant = true → binding.value?.isSome) :
      DerivesStmt n (opening :: name :: (ts ++ (us ++ [semicolon])))
        (.declaration name.lexeme constant binding)
  | object {n : Nat} {obj name opening closing : Token} {items : List (List Token × Property)}
      (hobj : obj.kind = .word .obj) (hname : name.kind = .identifier)
      (ho : opening.kind = .mark .openCurly) (hc : closing.kind = .mark .closeCurly)
      (hitems : ∀ item ∈ items, DerivesProperty n item.1 item.2)
      (hdistinct : (items.map fun item => item.2.name).Nodup) :
      DerivesStmt n (obj :: name :: opening :: (items.flatMap Prod.fst ++ [closing]))
        (.object name.lexeme (items.map Prod.snd))
  | expression {n : Nat} {ts : List Token} {semicolon : Token} {e : Expr}
      (h : Derives n .assignment ts e) (hsemicolon : semicolon.kind = .mark .semicolon) :
      DerivesStmt n (ts ++ [semicolon]) (.expression e)

/-- The tokens write the program, within so many levels of nesting. -/
def DerivesProgram (n : Nat) (ts : List Token) (p : Program) : Prop :=
  ∃ items : List (List Token × Stmt), (∀ item ∈ items, DerivesStmt n item.1 item.2) ∧
    ts = items.flatMap Prod.fst ∧ p.body = items.map Prod.snd

/-- A program of one statement is written as the statement is. -/
theorem derivesProgram_singleton_iff {n : Nat} {ts : List Token} {stmt : Stmt} :
    DerivesProgram n ts ⟨[stmt]⟩ ↔ DerivesStmt n ts stmt := by
  constructor
  · rintro ⟨items, hitems, rfl, hbody⟩
    obtain ⟨item, rfl, rfl⟩ := List.map_eq_singleton_iff.1 hbody.symm
    rw [List.flatMap_singleton]
    exact hitems item List.mem_cons_self
  · intro h
    exact ⟨[(ts, stmt)], List.forall_mem_singleton.2 h, (List.flatMap_singleton Prod.fst (ts, stmt)).symm, rfl⟩

/-! ## Each number in a program can be read -/

theorem DerivesType.readable {n : Nat} {ts : List Token} {type : TypeRef}
    (h : DerivesType n ts type) : ∀ t ∈ ts, t.Readable := by
  induction h with
  | named hk => simp [Token.Readable, hk]
  | group hgrp hless _ hcomma he hgreater _ ih =>
    have hafter := List.forall_mem_append.2
      ⟨he.readable, List.forall_mem_singleton.2 (Token.Readable.of_mark hgreater)⟩
    have helement := List.forall_mem_append.2
      ⟨ih, List.forall_mem_cons.2 ⟨Token.Readable.of_mark hcomma, hafter⟩⟩
    refine List.forall_mem_cons.2 ⟨by simp [Token.Readable, hgrp], ?_⟩
    exact List.forall_mem_cons.2 ⟨.of_mark hless, helement⟩

theorem DerivesAnnotation.readable {n : Nat} {ts : List Token} {type : Option TypeRef}
    (h : DerivesAnnotation n ts type) : ∀ t ∈ ts, t.Readable := by
  cases h with
  | none => simp
  | some hcolon h => exact List.forall_mem_cons.2 ⟨.of_mark hcolon, h.readable⟩

theorem DerivesInitializer.readable {n : Nat} {ts : List Token} {value : Option Expr}
    (h : DerivesInitializer n ts value) : ∀ t ∈ ts, t.Readable := by
  cases h with
  | none => simp
  | some hassign h => exact List.forall_mem_cons.2 ⟨.of_mark hassign, h.readable⟩

theorem DerivesProperty.readable {n : Nat} {ts : List Token} {p : Property}
    (h : DerivesProperty n ts p) : ∀ t ∈ ts, t.Readable := by
  obtain ⟨hname, hcolon, htype, hsemicolon⟩ := h
  have htype := List.forall_mem_append.2
    ⟨htype.readable, List.forall_mem_singleton.2 (Token.Readable.of_mark hsemicolon)⟩
  refine List.forall_mem_cons.2 ⟨by simp [Token.Readable, hname], ?_⟩
  exact List.forall_mem_cons.2 ⟨.of_mark hcolon, htype⟩

/-- What holds of the tokens of each item holds of all of them. -/
theorem forall_mem_flatMap_fst {α : Type} {P : Token → Prop} {items : List (List Token × α)}
    (h : ∀ item ∈ items, ∀ t ∈ item.1, P t) : ∀ t ∈ items.flatMap Prod.fst, P t := by
  intro t ht
  obtain ⟨item, hitem, ht⟩ := List.mem_flatMap.1 ht
  exact h item hitem t ht

theorem DerivesStmt.readable {n : Nat} {ts : List Token} {stmt : Stmt}
    (h : DerivesStmt n ts stmt) : ∀ t ∈ ts, t.Readable := by
  induction h with
  | block ho hc _ ih =>
    have hbody := List.forall_mem_append.2
      ⟨forall_mem_flatMap_fst ih, List.forall_mem_singleton.2 (Token.Readable.of_mark hc)⟩
    exact List.forall_mem_cons.2 ⟨.of_mark ho, hbody⟩
  | declaration ho hname htype hvalue hsemicolon _ =>
    have hvalue := List.forall_mem_append.2
      ⟨hvalue.readable, List.forall_mem_singleton.2 (Token.Readable.of_mark hsemicolon)⟩
    refine List.forall_mem_cons.2 ⟨by simp [Token.Readable, ho], ?_⟩
    refine List.forall_mem_cons.2 ⟨by simp [Token.Readable, hname], ?_⟩
    exact List.forall_mem_append.2 ⟨htype.readable, hvalue⟩
  | object hobj hname ho hc hitems _ =>
    have hproperties := forall_mem_flatMap_fst fun item hitem => (hitems item hitem).readable
    have hbody := List.forall_mem_append.2
      ⟨hproperties, List.forall_mem_singleton.2 (Token.Readable.of_mark hc)⟩
    refine List.forall_mem_cons.2 ⟨by simp [Token.Readable, hobj], ?_⟩
    refine List.forall_mem_cons.2 ⟨by simp [Token.Readable, hname], ?_⟩
    exact List.forall_mem_cons.2 ⟨.of_mark ho, hbody⟩
  | expression h hsemicolon =>
    exact List.forall_mem_append.2
      ⟨h.readable, List.forall_mem_singleton.2 (Token.Readable.of_mark hsemicolon)⟩

theorem DerivesProgram.readable {n : Nat} {ts : List Token} {p : Program}
    (h : DerivesProgram n ts p) : ∀ t ∈ ts, t.Readable := by
  obtain ⟨items, hitems, rfl, -⟩ := h
  exact forall_mem_flatMap_fst fun item hitem => (hitems item hitem).readable

end ScriptFront
