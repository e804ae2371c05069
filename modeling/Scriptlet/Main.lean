import Scriptlet.CommandLine

/-!
# The command

Reads the file, prints the response, and ends with its code.
-/

namespace Scriptlet.CommandLine

/-- The text of a file, if it can be read and is UTF-8. -/
def readText? (path : String) : IO (Option String) := do
  try
    return String.fromUTF8? (← IO.FS.readBinFile path)
  catch _ =>
    return none

end Scriptlet.CommandLine

open Scriptlet.CommandLine in
/-- Responds to the arguments. -/
def main (arguments : List String) : IO UInt32 := do
  let program := (← IO.appPath).fileName.getD ""
  let response ← respond program arguments readText?
  IO.print response.output
  IO.eprint response.errorOutput
  return response.exitCode
