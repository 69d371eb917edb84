import ScriptFront.Text.Quoted
import ScriptFront.Token.Basic

/-!
# Faults

Why a run stopped. Each constructor is a cause with the facts it is about; the wording is given once,
by `Fault.message` and `Fault.tip?`.
-/

namespace ScriptFront

/-- The two sorts of phrase that are read by binding power (`GrammarKind`). -/
inductive Phrase where
  | expression
  | typeRef
deriving DecidableEq, Repr

/-- How a message calls the phrase. -/
def Phrase.noun : Phrase → String
  | .expression => "expression"
  | .typeRef => "type"

/-- The cause that stopped a run (`ErrorImpl`). -/
inductive Fault where
  /-- No scanning rule applies to the rest of the source. -/
  | unrecognised (remainder : String)
  /-- No form starts with this token. -/
  | cannotStart (phrase : Phrase) (kind : Kind) (lexeme : String)
  /-- No form continues with this token. -/
  | cannotContinue (phrase : Phrase) (kind : Kind) (lexeme : String)
  /-- Another kind of token had to stand here. -/
  | unexpected (expected received : Kind) (lexeme : String)
  /-- Another kind of token had to stand here, for the reason given. -/
  | unexpectedBecause (expected received : Kind) (reason : String)
  /-- The stream does not close with an end token. -/
  | unterminated
  /-- The lexeme of a number token is no number. -/
  | unreadableNumber (lexeme : String)
  /-- An object declares a property twice. -/
  | duplicateProperty (object property : String)
  /-- A constant has no value. -/
  | constantWithoutValue (name : String)
  /-- A variable has neither a type nor a value. -/
  | undetermined (name : String)
  /-- The size of a group is not a number as written. -/
  | sizeNotLiteral (found : String)
  /-- The size of a group is not a whole number in range. -/
  | sizeOutOfRange (literal : String)
  /-- Something other than a name stands before an argument list. -/
  | notConstructible (found : String)
  /-- More levels are open than allowed. -/
  | tooDeep (limit : Nat)
deriving DecidableEq, Repr

/-- The broad class of a fault. -/
inductive Category where
  | lexical
  | missingForm
  | expectation
  | semantic
deriving DecidableEq, Repr

namespace Fault

open Text (quoted)

/-- The class a fault belongs to (`kind` of errors). -/
def category : Fault → Category
  | unrecognised _ => .lexical
  | cannotStart .. | cannotContinue .. => .missingForm
  | unexpected .. | unexpectedBecause .. | unterminated => .expectation
  | _ => .semantic

/-- The name under which a fault is reported (`get_error_name`). -/
def name : Fault → String
  | unrecognised _ => "UnrecognisedToken"
  | cannotStart .. => "MissingNudHandler"
  | cannotContinue .. => "MissingLedHandler"
  | unexpected .. => "UnexpectedToken"
  | unexpectedBecause .. => "UnexpectedTokenDetailed"
  | unterminated => "MissingEndOfInput"
  | unreadableNumber _ => "NumberParseError"
  | duplicateProperty .. => "DuplicateProperty"
  | constantWithoutValue _ => "ConstantWithoutInitializer"
  | undetermined _ => "MissingTypeOrInitializer"
  | sizeNotLiteral _ => "NonLiteralGroupSize"
  | sizeOutOfRange _ => "InvalidGroupSize"
  | notConstructible _ => "InvalidObjectTarget"
  | tooDeep _ => "NestingTooDeep"

/-- What happened, in one line (the messages of `ErrorImpl`). -/
def message : Fault → String
  | unrecognised remainder => "unrecognised input near " ++ quoted remainder
  | cannotStart phrase kind lexeme =>
    "no " ++ phrase.noun ++ " prefix handler for " ++ kind.name ++ " (" ++ quoted lexeme ++ ")"
  | cannotContinue phrase kind lexeme =>
    "no " ++ phrase.noun ++ " infix handler for " ++ kind.name ++ " (" ++ quoted lexeme ++ ")"
  | unexpected expected received lexeme =>
    "expected " ++ expected.name ++ " but received " ++ received.name ++ " (" ++ quoted lexeme ++ ")"
  | unexpectedBecause expected received reason =>
    "expected " ++ expected.name ++ " but received " ++ received.name ++ ": " ++ reason
  | unterminated => "token stream is not terminated by EOF"
  | unreadableNumber lexeme => "error parsing number: " ++ quoted lexeme
  | duplicateProperty object property =>
    "property " ++ quoted property ++ " previously defined in object " ++ quoted object
  | constantWithoutValue name => "constant " ++ quoted name ++ " must be initialized"
  | undetermined name =>
    "variable " ++ quoted name ++ " needs an explicit type or an initializer"
  | sizeNotLiteral found => "expected a numeric literal for group size, found " ++ quoted found
  | sizeOutOfRange literal =>
    "group size " ++ quoted literal ++ " is not a non-negative whole number"
  | notConstructible found => "only a type name can be instantiated, found " ++ found
  | tooDeep limit => "nesting exceeds the limit of " ++ toString limit ++ " levels"

/-- What to do about it, where there is advice to give (`get_tip`). -/
def tip? : Fault → Option String
  | unrecognised _ | unterminated => none
  | cannotStart phrase _ lexeme =>
    some ("`" ++ lexeme ++ "` cannot start a " ++ phrase.noun)
  | cannotContinue phrase _ lexeme =>
    some ("`" ++ lexeme ++ "` cannot continue a " ++ phrase.noun)
  | unexpected expected _ lexeme =>
    if expected = .mark .semicolon then
      some ("Unexpected token: `" ++ lexeme ++ "`, did you miss a semicolon?")
    else some ("Expected " ++ expected.name ++ " before `" ++ lexeme ++ "`")
  | unexpectedBecause _ _ reason => some reason
  | unreadableNumber lexeme => some ("Invalid number: `" ++ lexeme ++ "`")
  | duplicateProperty object property =>
    some ("Remove or rename the second `" ++ property ++ "` in `" ++ object ++ "`")
  | constantWithoutValue name =>
    some ("Give `" ++ name ++ "` a value, e.g. `const " ++ name ++ " = ...;`")
  | undetermined name => some ("Annotate `" ++ name ++ "` with a type or assign it a value")
  | sizeNotLiteral _ | sizeOutOfRange _ =>
    some "Group sizes must be written as a whole number, e.g. `grp<int, 4>`"
  | notConstructible _ => some "Objects are created by naming their type, e.g. `Point(1, 2)`"
  | tooDeep limit =>
    some ("Split the construct into smaller declarations, at most " ++ toString limit ++
      " levels deep")

end Fault

end ScriptFront
