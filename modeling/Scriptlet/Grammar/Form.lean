import Scriptlet.Grammar.Power
import Scriptlet.Grammar.Rule
import Scriptlet.Tree.Basic

/-!
# Forms

The forms of the language, each as a rule. A form reads the tokens that hold it together and leaves
its parts to `below`, which reads a part of the wanted sort one nesting level further down. So no
form recurses by itself; `Tables.read` ties them together.
-/

namespace Scriptlet

/-- The sorts of part that open a nesting level. -/
inductive Goal where
  | declaration
  | statement
  /-- An expression whose operators bind tighter than the given power. -/
  | expression (above : Power)
deriving DecidableEq, Repr

namespace Form

open Rule

variable (below : Goal → Rule Tree)

/-- A whole expression. -/
def wholeExpression : Rule Tree := below (.expression .lowest)

/-- A name or a literal. Any other token is read too before the rule fails. -/
def primary : Rule Tree := do
  let token ← take .expression
  match token.kind with
  | .identifier => return .reference token
  | .integer | .floating | .text => return .literal token
  | _ => fail .expression

/-- An operator and its operand. -/
def unary : Rule Tree := do
  let operator ← take .expression
  let operand ← below (.expression .unary)
  return .unary operator operand

/-- An expression in parentheses. -/
def group : Rule Tree := do
  let _ ← expect .leftParen .expression
  let inner ← wholeExpression below
  let _ ← expect .rightParen .groupEnd
  return .group inner

/-- An operator and its right operand, after the left one. -/
def binary (left : Tree) (power : Power) : Rule Tree := do
  let operator ← take .expression
  let right ← below (.expression power)
  return .binary left operator right

/-- Items in parentheses with commas between, possibly none; the opening one is read already. -/
def closedList {α : Type} (item : Rule α) (closing : Complaint) : Rule (List α) := do
  let items ← if (← kind?) = some .rightParen then pure [] else separated item
  let _ ← expect .rightParen closing
  return items

/-- Arguments in parentheses, after what is called. -/
def call (callee : Tree) : Rule Tree := do
  let _ ← expect .leftParen .argumentsStart
  let arguments ← closedList (wholeExpression below) .argumentsEnd
  return .call callee arguments

/-- The statement that an expression on a line of its own is: `name = value` assigns there, though
inside an expression it compares. -/
def ofExpression : Tree → Tree
  | .binary (.reference name) operator value =>
    if operator.kind = .equal then .assign name value
    else .binary (.reference name) operator value
  | e => e

/-- An expression on a line of its own. -/
def expressionStatement : Rule Tree := do
  let e ← wholeExpression below
  let _ ← expect .lineEnd .lineEndAfterExpression
  return ofExpression e

/-- The declaration of a name, with a value or without. -/
def declare : Rule Tree := do
  let keyword ← take .declareWord
  let name ← expect .identifier .variableName
  let value? ← if ← accept .equal then some <$> wholeExpression below else pure none
  let _ ← expect .lineEnd .lineEndAfterDeclaration
  return .declare name value? (keyword.kind = .varWord)

/-- Declarations up to the closing brace, with empty lines between; the opening brace is read
already. -/
def blockBody : Rule (List Tree) := do
  let statements ← many do
    skipLineEnds
    let kind ← kind?
    if kind = some .rightBrace || kind = none then return none
    some <$> below .declaration
  let _ ← expect .rightBrace .blockEnd
  return statements

/-- The declaration of a function. -/
def function : Rule Tree := do
  let _ ← expect .funWord .funWord
  let name ← expect .identifier .functionName
  let _ ← expect .leftParen .parametersStart
  let parameters ← closedList (expect .identifier .parameterName) .parametersEnd
  let _ ← expect .leftBrace .functionBodyStart
  let body ← blockBody below
  return .function name parameters body

/-- A choice between statements. -/
def conditional : Rule Tree := do
  let _ ← expect .ifWord .ifWord
  let _ ← expect .leftParen .conditionStart
  let condition ← wholeExpression below
  let _ ← expect .rightParen .conditionEnd
  let thenBranch ← below .statement
  let elseBranch? ← if ← accept .elseWord then some <$> below .statement else pure none
  return .conditional condition thenBranch elseBranch?

/-- Declarations in braces. -/
def block : Rule Tree := do
  let _ ← expect .leftBrace .blockStart
  let statements ← blockBody below
  return .block statements

end Form

end Scriptlet
