import ScriptFront.Grammar.Power
import ScriptFront.Token.Kind

/-!
# Grammar tables

What a kind of token can do at the place where it stands: start a phrase, continue one, or start a
statement. A grammar holds the forms for one sort of phrase; `Tables` holds the grammars of expressions
and types and the statement forms. The standard tables are the language; entries can be added or
replaced, and `Tables.restore` puts the standard entries back over whatever was added.
-/

namespace ScriptFront

/-- The ways an expression starts. -/
inductive StartForm where
  /-- A number, a string or a name by itself (`parse_primary_expr`). -/
  | literal
  /-- An operator and its operand (`parse_prefix_expr`). -/
  | unary
  /-- An expression in parentheses (`parse_grouping_expr`). -/
  | parenthesised
  /-- The elements of a group in brackets (`parse_grp_init_expr`). -/
  | group
deriving DecidableEq, Repr

/-- The ways an expression goes on after its first operand. -/
inductive ContinueForm where
  /-- An operator and a right operand that stops at operators of the same power (`parse_binary_expr`). -/
  | binary
  /-- An assignment, whose right operand takes in further assignments (`parse_assignment_expr`). -/
  | assign
  /-- The arguments of an object under construction (`parse_obj_init_expr`). -/
  | construct
  /-- The access to a member (`parse_member_expr`). -/
  | member
deriving DecidableEq, Repr

/-- The ways a type starts. -/
inductive TypeForm where
  /-- The name of a type (`parse_symbol_type`). -/
  | named
  /-- A group of elements of one type (`parse_group_type`). -/
  | group
deriving DecidableEq, Repr

/-- The ways a statement starts. -/
inductive StmtForm where
  /-- Whatever the tables say of the token (`parse_stmt`). -/
  | any
  /-- A variable or a constant (`parse_var_decl_stmt`). -/
  | declaration
  /-- An object type (`parse_obj_decl_stmt`). -/
  | object
  /-- Statements in braces (`parse_block_stmt`). -/
  | block
deriving DecidableEq, Repr

/-- The forms of one sort of phrase: those that start it (`nud_handler`), those that continue it
(`led_handler`), and the power at which a token continues it (`binding_power`). -/
structure Grammar (σ τ : Type) where
  starts : Kind → Option σ
  continues : Kind → Option τ
  power : Kind → Power

namespace Grammar

variable {σ τ : Type}

/-- A grammar in which `kind` starts the given form (`nud` of a grammar). -/
def addStart (g : Grammar σ τ) (kind : Kind) (form : σ) : Grammar σ τ :=
  { g with starts := fun k => if k = kind then some form else g.starts k }

/-- A grammar in which `kind` continues a phrase in the given form at the given power (`led` of a
grammar). -/
def addContinue (g : Grammar σ τ) (kind : Kind) (power : Power) (form : τ) : Grammar σ τ :=
  { g with
    continues := fun k => if k = kind then some form else g.continues k
    power := fun k => if k = kind then power else g.power k }

/-- The entries of `base`, and those of `g` for the tokens that `base` says nothing about. -/
def restore (base g : Grammar σ τ) : Grammar σ τ where
  starts k := base.starts k <|> g.starts k
  continues k := base.continues k <|> g.continues k
  power k := if (base.continues k).isSome then base.power k else g.power k

end Grammar

/-- The grammar of expressions. -/
abbrev ExprGrammar := Grammar StartForm ContinueForm

/-- The grammar of types: nothing continues a type. -/
abbrev TypeGrammar := Grammar TypeForm Empty

/-- All that the tokens can do. -/
structure Tables where
  expressions : ExprGrammar
  types : TypeGrammar
  statements : Kind → Option StmtForm

namespace ExprGrammar

/-- What starts an expression of the language. -/
def opening : Kind → Option StartForm
  | .number | .identifier | .string => some .literal
  | .mark .dash | .mark .not => some .unary
  | .mark .openParen => some .parenthesised
  | .mark .openBracket => some .group
  | _ => none

/-- What continues an expression of the language, and how tightly (the entries of `create_token_lookups`). -/
def operator : Mark → Option (Power × ContinueForm)
  | .assign | .plusEquals | .minusEquals => some (.assignment, .assign)
  | .and | .or | .dotDot => some (.logical, .binary)
  | .less | .lessEquals | .greater | .greaterEquals | .equals | .notEquals =>
    some (.relational, .binary)
  | .plus | .dash => some (.additive, .binary)
  | .star | .slash | .percent => some (.multiplicative, .binary)
  | .openParen => some (.call, .construct)
  | .dot => some (.member, .member)
  | _ => none

/-- The expressions of the language. -/
def standard : ExprGrammar where
  starts := opening
  continues
    | .mark m => (operator m).map Prod.snd
    | _ => none
  power
    | .mark m => ((operator m).map Prod.fst).getD .lowest
    | _ => .lowest

end ExprGrammar

/-- The types of the language (`create_token_type_lookups`). -/
def TypeGrammar.standard : TypeGrammar where
  starts
    | .identifier => some .named
    | .word .grp => some .group
    | _ => none
  continues _ := none
  power _ := .lowest

namespace Tables

/-- What starts a statement of the language, other than an expression. -/
def standardStatements : Kind → Option StmtForm
  | .word .const | .word .var => some .declaration
  | .word .obj => some .object
  | .mark .openCurly => some .block
  | _ => none

/-- The language. -/
def standard : Tables := ⟨.standard, .standard, standardStatements⟩

/-- The tables with the standard entries put back (`create_token_lookups` and `create_token_type_lookups`, run
once more). -/
def restore (t : Tables) : Tables where
  expressions := Grammar.restore ExprGrammar.standard t.expressions
  types := Grammar.restore TypeGrammar.standard t.types
  statements k := standardStatements k <|> t.statements k

/-- The tables in which `kind` starts an expression of the given form (`nud`). -/
def addStart (t : Tables) (kind : Kind) (form : StartForm) : Tables :=
  { t with expressions := t.expressions.addStart kind form }

/-- The tables in which `kind` continues an expression in the given form at the given power (`led`). -/
def addContinue (t : Tables) (kind : Kind) (power : Power) (form : ContinueForm) : Tables :=
  { t with expressions := t.expressions.addContinue kind power form }

/-- The tables in which `kind` starts a type of the given form (`type_nud`). -/
def addTypeStart (t : Tables) (kind : Kind) (form : TypeForm) : Tables :=
  { t with types := t.types.addStart kind form }

/-- The tables in which `kind` starts a statement of the given form (`stmt`). -/
def addStatement (t : Tables) (kind : Kind) (form : StmtForm) : Tables :=
  { t with statements := fun k => if k = kind then some form else t.statements k }

end Tables

end ScriptFront
