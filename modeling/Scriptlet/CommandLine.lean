import Scriptlet.Diagnostic
import Scriptlet.Program
import Scriptlet.Scanner
import Scriptlet.Tree.Printed

/-!
# Command line

The command takes one file, lists its tokens between two ruled lines, prints each declaration on a
line, and then shows every error against the source.
-/

namespace Scriptlet.CommandLine

/-- What a run of the command writes, and the code with which it ends. -/
structure Response where
  exitCode : UInt32
  output : String
  errorOutput : String
deriving DecidableEq, Repr

/-- The line above and below the listing of tokens. -/
def ruledLine : String := String.ofList (List.replicate 37 '=')

/-- The lines, each with its line end. -/
def unlines (ls : List String) : String := String.join (ls.map (· ++ "\n"))

/-- The part of a path after the last slash. -/
def fileName (path : String) : String :=
  String.ofList (path.toList.reverse.takeWhile (· != '/')).reverse

/-- How the command is called. -/
def usage (program : String) : Response := ⟨2, "", unlines ["Usage: " ++ program ++ " <file>"]⟩

/-- The response when the file cannot be read as text. -/
def unreadable (path : String) : Response :=
  ⟨1, unlines ["ERROR failed to read source file path=" ++ Text.quotedText path], ""⟩

/-- The response to a source text. -/
def report (source file : String) : Response :=
  match tokenize source with
  | .error e => ⟨1, unlines [e.render source file], ""⟩
  | .ok tokens =>
    let program := Program.ofTokens tokens
    let output := unlines ([ruledLine, Token.listing tokens, ruledLine] ++
      program.body.map Tree.toString ++ program.errors.map (·.render source file))
    ⟨if program.hasErrors then 1 else 0, output, ""⟩

/-- The response to the arguments, where `read` gives the text of a file if it has one. -/
def respond {m : Type → Type} [Monad m] (program : String) (arguments : List String)
    (read : String → m (Option String)) : m Response := do
  match arguments with
  | [path] =>
    match ← read path with
    | some source => return report source (fileName path)
    | none => return unreadable path
  | _ => return usage program

end Scriptlet.CommandLine
