import Scriptlet.Token

/-!
# Syntax trees

Declarations, statements and expressions share one type of tree. A tree keeps the tokens that a
reader of it needs (operators, names, literals) and leaves out those that only hold it together.
-/

namespace Scriptlet

/-- A syntax tree. -/
inductive Tree where
  | binary (left : Tree) (operator : Token) (right : Tree)
  | unary (operator : Token) (operand : Tree)
  /-- A number or a text. -/
  | literal (value : Token)
  | group (inner : Tree)
  | reference (name : Token)
  | assign (name : Token) (value : Tree)
  /-- A binding of a name, which may be left without a value. -/
  | declare (name : Token) (value? : Option Tree) (isMutable : Bool)
  | function (name : Token) (parameters : List Token) (body : List Tree)
  | conditional (condition thenBranch : Tree) (elseBranch? : Option Tree)
  | call (callee : Tree) (arguments : List Tree)
  | block (statements : List Tree)

namespace Tree

mutual

/-- The number of nodes, the root included. -/
def size : Tree → Nat
  | .binary left _ right => left.size + right.size + 1
  | .unary _ operand => operand.size + 1
  | .literal _ => 1
  | .group inner => inner.size + 1
  | .reference _ => 1
  | .assign _ value => value.size + 1
  | .declare _ none _ => 1
  | .declare _ (some value) _ => value.size + 1
  | .function _ _ body => totalSize body + 1
  | .conditional condition thenBranch none => condition.size + thenBranch.size + 1
  | .conditional condition thenBranch (some elseBranch) =>
    condition.size + thenBranch.size + elseBranch.size + 1
  | .call callee arguments => callee.size + totalSize arguments + 1
  | .block statements => totalSize statements + 1

/-- The number of nodes of all trees of a list. -/
def totalSize : List Tree → Nat
  | [] => 0
  | t :: ts => t.size + totalSize ts

end

mutual

/-- Equality of trees as values: their tokens are compared as values, positions included. -/
def sameValue : Tree → Tree → Bool
  | .binary l o r, .binary l' o' r' => l.sameValue l' && o.sameValue o' && r.sameValue r'
  | .unary o e, .unary o' e' => o.sameValue o' && e.sameValue e'
  | .literal v, .literal v' => v.sameValue v'
  | .group e, .group e' => e.sameValue e'
  | .reference n, .reference n' => n.sameValue n'
  | .assign n v, .assign n' v' => n.sameValue n' && v.sameValue v'
  | .declare n none m, .declare n' none m' => n.sameValue n' && m == m'
  | .declare n (some v) m, .declare n' (some v') m' =>
    n.sameValue n' && v.sameValue v' && m == m'
  | .function n ps b, .function n' ps' b' =>
    n.sameValue n' && ps.isEqv ps' Token.sameValue && sameValues b b'
  | .conditional c t none, .conditional c' t' none => c.sameValue c' && t.sameValue t'
  | .conditional c t (some e), .conditional c' t' (some e') =>
    c.sameValue c' && t.sameValue t' && e.sameValue e'
  | .call f as, .call f' as' => f.sameValue f' && sameValues as as'
  | .block ss, .block ss' => sameValues ss ss'
  | _, _ => false

/-- Equality of lists of trees as values. -/
def sameValues : List Tree → List Tree → Bool
  | [], [] => true
  | t :: ts, t' :: ts' => t.sameValue t' && sameValues ts ts'
  | _, _ => false

end

end Tree

end Scriptlet
