import ScriptFront.Double.Whole
import ScriptFront.Dump

/-!
# Types as written

A type is kept as it was written: the name of a type, not looked up, or a group of a fixed number of
elements of one type.
-/

namespace ScriptFront

/-- A type as written. -/
inductive TypeRef where
  | named (name : String)
  | group (element : TypeRef) (size : UInt64)
deriving DecidableEq, Repr

namespace TypeRef

/-- The size a number stands for: a number without a fraction, not below zero and not above the largest size,
which is rounded for the comparison (`group_size`). -/
def size? (d : Double) : Option UInt64 :=
  if !d.fract.same .zero || d.lt .zero || (Double.ofNat (UInt64.size - 1)).lt d then none
  else some d.toUInt64

/-- The structure of a type. -/
def dump : TypeRef → Dump
  | named name => .wrap "Symbol" (.record "SymbolType" [("name", .text name)])
  | group element size =>
    .wrap "Group" (.record "GroupType" [("underlying", element.dump), ("size", .nat size.toNat)])

end TypeRef

end ScriptFront
