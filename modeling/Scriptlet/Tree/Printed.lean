import Scriptlet.Tree.Basic

/-!
# Printed trees

A tree is printed in operator-first form: each node in parentheses, its head first and its parts
after it, with one space between. Literals and references are printed as their lexemes alone.
-/

namespace Scriptlet

namespace Tree

/-- The words in parentheses, with one space between. -/
def parenthesised (words : List String) : String := "(" ++ " ".intercalate words ++ ")"

/-- The word that opens a declaration of a name. -/
def declareWord (isMutable : Bool) : String := if isMutable then "var" else "let"

mutual

/-- The printed form of a tree. -/
def toString : Tree → String
  | .binary left operator right => parenthesised [operator.lexeme, left.toString, right.toString]
  | .unary operator operand => parenthesised [operator.lexeme, operand.toString]
  | .literal value => value.lexeme
  | .group inner => parenthesised ["group", inner.toString]
  | .reference name => name.lexeme
  | .assign name value => parenthesised ["assign", name.lexeme, value.toString]
  | .declare name none isMutable => parenthesised [declareWord isMutable, name.lexeme]
  | .declare name (some value) isMutable =>
    parenthesised [declareWord isMutable, name.lexeme, value.toString]
  | .function name parameters body =>
    parenthesised ("fun" :: name.lexeme :: parenthesised (parameters.map Token.lexeme) :: texts body)
  | .conditional condition thenBranch none =>
    parenthesised ["if", condition.toString, thenBranch.toString]
  | .conditional condition thenBranch (some elseBranch) =>
    parenthesised ["if", condition.toString, thenBranch.toString, elseBranch.toString]
  | .call callee arguments => parenthesised ("call" :: callee.toString :: texts arguments)
  | .block statements => parenthesised ("block" :: texts statements)

/-- The printed forms of the trees of a list. -/
def texts : List Tree → List String
  | [] => []
  | t :: ts => t.toString :: texts ts

end

end Tree

instance : ToString Tree := ⟨Tree.toString⟩

end Scriptlet
