import ScriptFront.Proofs.Program.Grammar
import ScriptFront.Proofs.Token.Spelling

/-!
# Writing programs out

The tokens that write a tree out: each operand of an operator and each initial value stands in
parentheses, list items are separated by commas, a size is written in decimal, and a number by any
numeral that is read as it. Since numerals are free to choose, writing is a relation
(`Program.Writes`); the trees for which it means anything are `Program.Printable`.

`Program.nesting` counts the levels of nesting that a program opens when it is written out in this way:
each expression, each type and each block is one level, an operand to the right of an operator is one
level deeper than the operator's own phrase, and what stands in parentheses another one.
-/

namespace ScriptFront

/-- The operators between two operands, the access to a member among them. -/
def Mark.joining : List Mark :=
  [.and, .or, .dotDot, .less, .lessEquals, .greater, .greaterEquals, .equals, .notEquals, .plus, .dash,
   .star, .slash, .percent, .dot]

/-- The token is one of the marks, with its own spelling. -/
def Token.IsMark (ms : List Mark) (t : Token) : Prop := ∃ m ∈ ms, t = m.token

/-- A size that can be written: the largest one, or a smaller one that is a value. -/
def IsSize (size : UInt64) : Prop := size.toNat = 2 ^ 64 - 1 ∨ ∃ d : Double, d.IsNat size.toNat

/-! ## What can be written -/

/-- Names are names, operators stand in their places, and each number has a numeral. -/
inductive Expr.Printable : Expr → Prop where
  | number {v : Double}
      (h : ∃ lexeme : String, IsNumeral lexeme.toList ∧ Double.read? lexeme = some v) :
      Printable (.number v)
  | string (text : String) : Printable (.string text)
  | symbol {name : String} (hname : IsName name) : Printable (.symbol name)
  | unary {op : Token} {e : Expr} (hop : op.IsMark Mark.negating) (he : Printable e) :
      Printable (.unary op e)
  | binary {op : Token} {a b : Expr} (hop : op.IsMark Mark.joining) (ha : Printable a)
      (hb : Printable b) : Printable (.binary op a b)
  | assign {op : Token} {a b : Expr} (hop : op.IsMark Mark.assigning) (ha : Printable a)
      (hb : Printable b) : Printable (.assign op a b)
  | construct {name : String} {arguments : List Expr} (hname : IsName name)
      (harguments : ∀ e ∈ arguments, Printable e) : Printable (.construct name arguments)
  | group {elements : List Expr} (helements : ∀ e ∈ elements, Printable e) :
      Printable (.group elements)

/-- Names are names, and each size can be written. -/
def TypeRef.Printable : TypeRef → Prop
  | .named name => IsName name
  | .group element size => element.Printable ∧ IsSize size

/-- The parts can be written, a constant has a value, and no two properties of an object type have the
same name. -/
inductive Stmt.Printable : Stmt → Prop where
  | block {body : List Stmt} (hbody : ∀ stmt ∈ body, Printable stmt) : Printable (.block body)
  | expression {e : Expr} (he : e.Printable) : Printable (.expression e)
  | declaration {name : String} {constant : Bool} {binding : Binding} (hname : IsName name)
      (htype : ∀ type ∈ binding.type?, type.Printable)
      (hvalue : ∀ value ∈ binding.value?, value.Printable)
      (hconstant : constant = true → binding.value?.isSome) :
      Printable (.declaration name constant binding)
  | object {name : String} {properties : List Property} (hname : IsName name)
      (hproperties : ∀ p ∈ properties, IsName p.name ∧ p.type.Printable)
      (hdistinct : (properties.map Property.name).Nodup) : Printable (.object name properties)

/-- Each statement can be written. -/
def Program.Printable (p : Program) : Prop := ∀ stmt ∈ p.body, stmt.Printable

/-! ## How it is written -/

/-- The token of a name. -/
def nameToken (name : String) : Token := ⟨.identifier, name⟩

/-- The tokens in parentheses. -/
def inParens (ts : List Token) : List Token :=
  Mark.openParen.token :: (ts ++ [Mark.closeParen.token])

/-- The parts with commas between them. -/
def separated (parts : List (List Token)) : List Token := [Mark.comma.token].intercalate parts

/-- The expression is written by the tokens. -/
inductive Expr.Writes : Expr → List Token → Prop where
  | number {v : Double} {lexeme : String} (hl : IsNumeral lexeme.toList)
      (hv : Double.read? lexeme = some v) : Writes (.number v) [⟨.number, lexeme⟩]
  | string (text : String) : Writes (.string text) [⟨.string, text⟩]
  | symbol (name : String) : Writes (.symbol name) [nameToken name]
  | unary {op : Token} {e : Expr} {ts : List Token} (h : Writes e ts) :
      Writes (.unary op e) (op :: inParens ts)
  | binary {op : Token} {a b : Expr} {ts us : List Token} (ha : Writes a ts) (hb : Writes b us) :
      Writes (.binary op a b) (inParens ts ++ op :: inParens us)
  | assign {op : Token} {a b : Expr} {ts us : List Token} (ha : Writes a ts) (hb : Writes b us) :
      Writes (.assign op a b) (inParens ts ++ op :: inParens us)
  | construct {name : String} {items : List (List Token × Expr)}
      (hitems : ∀ item ∈ items, Writes item.2 item.1) :
      Writes (.construct name (items.map Prod.snd))
        (nameToken name :: inParens (separated (items.map Prod.fst)))
  | group {items : List (List Token × Expr)} (hitems : ∀ item ∈ items, Writes item.2 item.1) :
      Writes (.group (items.map Prod.snd))
        (Mark.openBracket.token :: (separated (items.map Prod.fst) ++ [Mark.closeBracket.token]))

/-- The tokens that write a type. -/
def TypeRef.tokens : TypeRef → List Token
  | .named name => [nameToken name]
  | .group element size =>
    Word.grp.token :: Mark.less.token :: (element.tokens ++
      Mark.comma.token :: ([⟨.number, size.toNat.repr⟩] ++ [Mark.greater.token]))

/-- The tokens that write a property of an object type. -/
def Property.tokens (p : Property) : List Token :=
  nameToken p.name :: Mark.colon.token :: (p.type.tokens ++ [Mark.semicolon.token])

/-- The tokens that write the type of a declaration, if it has one. -/
def TypeRef.afterColon : Option TypeRef → List Token
  | none => []
  | some type => Mark.colon.token :: type.tokens

/-- The value of a declaration, if it has one, is written by the tokens. -/
inductive Expr.WritesInitializer : Option Expr → List Token → Prop where
  | none : WritesInitializer none []
  | some {value : Expr} {ts : List Token} (h : value.Writes ts) :
      WritesInitializer (some value) (Mark.assign.token :: inParens ts)

/-- The statement is written by the tokens. -/
inductive Stmt.Writes : Stmt → List Token → Prop where
  | block {items : List (List Token × Stmt)} (hitems : ∀ item ∈ items, Writes item.2 item.1) :
      Writes (.block (items.map Prod.snd))
        (Mark.openCurly.token :: (items.flatMap Prod.fst ++ [Mark.closeCurly.token]))
  | expression {e : Expr} {ts : List Token} (h : e.Writes ts) :
      Writes (.expression e) (ts ++ [Mark.semicolon.token])
  | declaration {name : String} {constant : Bool} {binding : Binding} {us : List Token}
      (h : Expr.WritesInitializer binding.value? us) :
      Writes (.declaration name constant binding)
        (Word.token (if constant then .const else .var) :: nameToken name ::
          (TypeRef.afterColon binding.type? ++ (us ++ [Mark.semicolon.token])))
  | object (name : String) (properties : List Property) :
      Writes (.object name properties)
        (Word.obj.token :: nameToken name :: Mark.openCurly.token ::
          (properties.flatMap Property.tokens ++ [Mark.closeCurly.token]))

/-- The program is written by the tokens. -/
def Program.Writes (p : Program) (ts : List Token) : Prop :=
  ∃ items : List (List Token × Stmt), (∀ item ∈ items, item.2.Writes item.1) ∧
    p.body = items.map Prod.snd ∧ ts = items.flatMap Prod.fst

/-! ## How deeply it nests -/

namespace Expr

mutual

/-- The levels of nesting that an expression opens when it is written out. -/
def nesting : Expr → Nat
  | number _ | string _ | symbol _ => 1
  | unary _ e => e.nesting + 2
  | binary _ a b | assign _ a b => max (a.nesting + 1) (b.nesting + 2)
  | construct _ es | group es => nestingAll es + 1

/-- The levels that the deepest of the expressions opens. -/
def nestingAll : List Expr → Nat
  | [] => 0
  | e :: es => max e.nesting (nestingAll es)

end

end Expr

/-- The levels of nesting that a type opens; the size of a group is an expression of one level. -/
def TypeRef.nesting : TypeRef → Nat
  | .named _ => 1
  | .group element _ => max element.nesting 1 + 1

/-- The levels of nesting that the parts of a declaration open, its value being in parentheses. -/
def Binding.nesting : Binding → Nat
  | typed type => type.nesting
  | inferred value => value.nesting + 1
  | annotated type value => max type.nesting (value.nesting + 1)

namespace Stmt

mutual

/-- The levels of nesting that a statement opens when it is written out. -/
def nesting : Stmt → Nat
  | block body => nestingAll body + 1
  | expression e => e.nesting
  | declaration _ _ binding => binding.nesting
  | object _ properties => (properties.map fun p => p.type.nesting).foldr max 0

/-- The levels that the deepest of the statements opens. -/
def nestingAll : List Stmt → Nat
  | [] => 0
  | s :: ss => max s.nesting (nestingAll ss)

end

end Stmt

/-- The levels of nesting that a program opens when it is written out. -/
def Program.nesting (p : Program) : Nat := Stmt.nestingAll p.body

end ScriptFront
