import ScriptFront.Fault.Dump
import ScriptFront.Parse.Program

/-!
# The command line

What the program does with its arguments, apart from the reading of the file: it lists the tokens if
asked to, prints the tree unless asked not to, and reports the first fault.
-/

namespace ScriptFront.CommandLine

/-- What the arguments ask for. -/
inductive Invocation where
  /-- The name and the version of the program. -/
  | version
  /-- A run on the file at `path`, with a list of the tokens and with the tree if so wanted. -/
  | run (path : String) (tokens tree : Bool)
deriving DecidableEq, Repr

/-- What the arguments so far ask for. -/
structure Settings where
  path : Option String
  tokens : Bool
  tree : Bool

/-- Reads the arguments. Options may stand anywhere before a bare `--`, at most once each; there has to
be exactly one path. The version is given as soon as it is asked for. -/
def readArguments (optionsOver : Bool) (s : Settings) : List String → Option Invocation
  | [] => s.path.map fun path => .run path s.tokens s.tree
  | a :: rest =>
    if !optionsOver && a.startsWith "-" && a != "-" then
      if a == "--" then readArguments true s rest
      else if a == "--version" || a == "-V" then some .version
      else if a == "--tokens" && !s.tokens then
        readArguments optionsOver { s with tokens := true } rest
      else if a == "--no-ast" && s.tree then
        readArguments optionsOver { s with tree := false } rest
      else none
    else if s.path.isSome || a.isEmpty then none
    else readArguments optionsOver { s with path := some a } rest

/-- What a list of arguments asks for, if it is well formed. -/
def Invocation.ofArguments? (arguments : List String) : Option Invocation :=
  readArguments false ⟨none, false, true⟩ arguments

/-- Why a file could not be read. -/
inductive ReadFailure where
  | missing
  | directory
  | notDirectory
  | notText
  | other (reason : String)
deriving DecidableEq, Repr

/-- The reason as it is reported. -/
def ReadFailure.reason : ReadFailure → String
  | missing => "No such file or directory (os error 2)"
  | directory => "Is a directory (os error 21)"
  | notDirectory => "Not a directory (os error 20)"
  | notText => "stream did not contain valid UTF-8"
  | other reason => reason

/-- The text of a file. -/
def decode (bytes : ByteArray) : Except ReadFailure String :=
  match String.fromUTF8? bytes with
  | some text => .ok text
  | none => .error .notText

/-- What a run leaves behind. -/
structure Result where
  exit : Nat
  stdout : String
  stderr : String
deriving DecidableEq, Repr

/-- The lines that report a fault (`report`). -/
def report (cause : Fault) : String :=
  "Error: " ++ cause.name ++ " (" ++ cause.message ++ ")\n" ++
    match cause.tip? with
    | some tip => "  tip: " ++ tip ++ "\n"
    | none => ""

/-- The listing of the tokens (`main` with `--tokens`). -/
def listing (tokens : List Token) : String :=
  "Tokens:\n" ++ String.join (tokens.map fun t => t.display ++ "\n")

/-- The tree over lines. -/
def treePage (p : Program) : String := "AST:\n" ++ p.dump.write true ++ "\n"

/-- Works on the text of a file (`main`, once the file is read). -/
def process (source : String) (tokens tree : Bool) : Result :=
  match tokenize source with
  | .error cause => ⟨1, "", report cause⟩
  | .ok ts =>
    let listed := if tokens then listing ts else ""
    match parse ts with
    | .ok p => ⟨0, listed ++ (if tree then treePage p else ""), ""⟩
    | .fault cause => ⟨1, listed, report cause⟩
    | .endless => ⟨1, listed, ""⟩

/-- Works on a file, given what reading it gave (`main`). -/
def processFile (path : String) (tokens tree : Bool) : Except ReadFailure String → Result
  | .ok source => process source tokens tree
  | .error failure =>
    ⟨1, "", "Error: failed to read " ++ path ++ "\n\nCaused by:\n    " ++ failure.reason ++ "\n"⟩

/-- The answer to a question for the version. -/
def versionResult : Result := ⟨0, "gbscript 0.1.0\n", ""⟩

/-- The answer to arguments that are not well formed. -/
def usageResult : Result := ⟨2, "", "Usage: gbscript [OPTIONS] <INPUT>\n"⟩

end ScriptFront.CommandLine
