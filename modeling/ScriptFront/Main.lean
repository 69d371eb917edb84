import ScriptFront.CommandLine

/-!
# The program

Reads the file that the arguments name and prints what comes of it.
-/

namespace ScriptFront.CommandLine

/-- The text of the file at a path, or why it could not be read. -/
def readSource (path : String) : IO (Except ReadFailure String) := do
  try
    return decode (← IO.FS.readBinFile path)
  catch failure =>
    match failure with
    | .noFileOrDirectory .. => return .error .missing
    | .inappropriateType _ code _ => return .error (if code = 21 then .directory else .notDirectory)
    | failure => return .error (.other (toString failure))

/-- The result of the program on its arguments. -/
def answer (arguments : List String) : IO Result := do
  match Invocation.ofArguments? arguments with
  | none => return usageResult
  | some .version => return versionResult
  | some (.run path tokens tree) => return processFile path tokens tree (← readSource path)

end ScriptFront.CommandLine

/-- Prints the result and returns its exit code. -/
def main (arguments : List String) : IO UInt32 := do
  let result ← ScriptFront.CommandLine.answer arguments
  IO.print result.stdout
  IO.eprint result.stderr
  return result.exit.toUInt32
