/-!
# Binding powers

How tightly an operator holds its operands. The powers are ordered by rank; reading an expression at a
power takes only operators of a higher one.
-/

namespace ScriptFront

/-- The steps of tightness, from the loosest to the tightest (`BindingPower`). -/
inductive Power where
  | lowest | comma | assignment | logical | relational | additive | multiplicative | unary | call
  | member | primary
deriving DecidableEq, Repr

namespace Power

/-- All powers, in order. -/
def all : List Power :=
  [lowest, comma, assignment, logical, relational, additive, multiplicative, unary, call, member,
   primary]

/-- The place of a power in the order. -/
def rank : Power → Nat
  | lowest => 0
  | comma => 1
  | assignment => 2
  | logical => 3
  | relational => 4
  | additive => 5
  | multiplicative => 6
  | unary => 7
  | call => 8
  | member => 9
  | primary => 10

instance : LE Power := ⟨fun p q => p.rank ≤ q.rank⟩

instance : LT Power := ⟨fun p q => p.rank < q.rank⟩

instance (p q : Power) : Decidable (p ≤ q) := inferInstanceAs (Decidable (p.rank ≤ q.rank))

instance (p q : Power) : Decidable (p < q) := inferInstanceAs (Decidable (p.rank < q.rank))

theorem le_iff {p q : Power} : p ≤ q ↔ p.rank ≤ q.rank := Iff.rfl

theorem lt_iff {p q : Power} : p < q ↔ p.rank < q.rank := Iff.rfl

/-- The name a power goes by. -/
def name : Power → String
  | lowest => "Default"
  | comma => "Comma"
  | assignment => "Assignment"
  | logical => "Logical"
  | relational => "Relational"
  | additive => "Additive"
  | multiplicative => "Multiplicative"
  | unary => "Unary"
  | call => "Call"
  | member => "Member"
  | primary => "Primary"

/-- The power with the given name, if there is one. -/
def ofName? (text : String) : Option Power := all.find? fun p => p.name == text

end Power

end ScriptFront
