import ScriptFront.Dump
import ScriptFront.Fault

/-!
# The structure of faults
-/

namespace ScriptFront

/-- The name of a sort of phrase in a dump. -/
def Phrase.dump : Phrase → Dump
  | .expression => .atom "Expression"
  | .typeRef => .atom "Type"

/-- The name of a kind in a dump. -/
def Kind.dump (k : Kind) : Dump := .atom k.name

namespace Fault

/-- The parts of a fault under their labels. -/
def fields : Fault → List (String × Dump)
  | unrecognised remainder => [("remainder", .text remainder)]
  | cannotStart phrase kind lexeme | cannotContinue phrase kind lexeme =>
    [("grammar", phrase.dump), ("token", kind.dump), ("lexeme", .text lexeme)]
  | unexpected expected received lexeme =>
    [("expected", expected.dump), ("received", received.dump), ("lexeme", .text lexeme)]
  | unexpectedBecause expected received reason =>
    [("expected", expected.dump), ("received", received.dump), ("message", .text reason)]
  | unterminated => []
  | unreadableNumber lexeme => [("token", .text lexeme)]
  | duplicateProperty object property =>
    [("object", .text object), ("property", .text property)]
  | constantWithoutValue name | undetermined name => [("name", .text name)]
  | sizeNotLiteral found | notConstructible found => [("found", .text found)]
  | sizeOutOfRange literal => [("literal", .text literal)]
  | tooDeep limit => [("limit", .nat limit)]

/-- The structure of a fault; one without parts is its name alone. -/
def dump (f : Fault) : Dump :=
  if f.fields.isEmpty then .atom f.name else .record f.name f.fields

/-- The structure of the report of a fault (`Error`). -/
def dumpReport (f : Fault) : Dump := .record "Error" [("internal_error", f.dump)]

end Fault

end ScriptFront
