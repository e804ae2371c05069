import Scriptlet.Grammar.Form

/-!
# Grammar tables

Which form reads what is a matter of tables keyed by the kind of the next token: one for the start
of a declaration, one for the start of a statement, one for the start of an expression, and two for
what extends an expression to the right, in which form and how tightly. `Tables.standard` holds the
language; other tables can be made from it or from the empty ones.

`Tables.read` reads by the tables. Its first argument is the number of nesting levels left, so that
the recursion ends for every choice of tables.
-/

namespace Scriptlet

/-- A form that starts at the next token. -/
inductive Handler where
  | declaration
  | statement
  | expressionStatement
  | declare
  | function
  | conditional
  | block
  | primary
  | unary
  | group
deriving DecidableEq, Repr

/-- A form that extends an expression to the right. -/
inductive Extension where
  | binary
  | call
deriving DecidableEq, Repr

/-- How a token extends an expression: in which form, and how tightly. -/
structure Operator where
  power : Power
  extension : Extension
deriving DecidableEq, Repr

/-- The rule of a form. -/
def Handler.rule (below : Goal → Rule Tree) : Handler → Rule Tree
  | .declaration => below .declaration
  | .statement => below .statement
  | .expressionStatement => Form.expressionStatement below
  | .declare => Form.declare below
  | .function => Form.function below
  | .conditional => Form.conditional below
  | .block => Form.block below
  | .primary => Form.primary
  | .unary => Form.unary below
  | .group => Form.group below

/-- The rule of a form after the expression that it extends. -/
def Extension.rule (below : Goal → Rule Tree) (left : Tree) (power : Power) :
    Extension → Rule Tree
  | .binary => Form.binary below left power
  | .call => Form.call below left

/-- The forms by the kind of the token that announces them. -/
structure Tables where
  declarations : Kind → Option Handler
  statements : Kind → Option Handler
  expressions : Kind → Option Handler
  extensions : Kind → Option Extension
  powers : Kind → Option Power

namespace Tables

/-- The tables without an entry. -/
def empty : Tables := ⟨fun _ => none, fun _ => none, fun _ => none, fun _ => none, fun _ => none⟩

/-- The tables of the language. -/
def standard : Tables where
  declarations
    | .letWord | .varWord => some .declare
    | .funWord => some .function
    | _ => none
  statements
    | .ifWord => some .conditional
    | .leftBrace => some .block
    | _ => none
  expressions
    | .integer | .floating | .text | .identifier => some .primary
    | .minus => some .unary
    | .leftParen => some .group
    | _ => none
  extensions
    | .equal | .greater | .plus | .minus | .times | .divide => some .binary
    | .leftParen => some .call
    | _ => none
  powers
    | .equal => some .equality
    | .greater => some .comparison
    | .plus | .minus => some .additive
    | .times | .divide => some .multiplicative
    | .leftParen => some .call
    | _ => none

/-- The tables with the entries of `other` put over their own. -/
def override (tables other : Tables) : Tables where
  declarations kind := other.declarations kind <|> tables.declarations kind
  statements kind := other.statements kind <|> tables.statements kind
  expressions kind := other.expressions kind <|> tables.expressions kind
  extensions kind := other.extensions kind <|> tables.extensions kind
  powers kind := other.powers kind <|> tables.powers kind

/-- The function with one value changed. -/
def update {α : Type} (entries : Kind → Option α) (kind : Kind) (entry : α) : Kind → Option α :=
  fun k => if k = kind then some entry else entries k

/-- Enters a form for declarations. -/
def withDeclaration (tables : Tables) (kind : Kind) (handler : Handler) : Tables :=
  { tables with declarations := update tables.declarations kind handler }

/-- Enters a form for statements. -/
def withStatement (tables : Tables) (kind : Kind) (handler : Handler) : Tables :=
  { tables with statements := update tables.statements kind handler }

/-- Enters a form for expressions. -/
def withExpression (tables : Tables) (kind : Kind) (handler : Handler) : Tables :=
  { tables with expressions := update tables.expressions kind handler }

/-- Enters an operator, its form and its power. -/
def withOperator (tables : Tables) (kind : Kind) (operator : Operator) : Tables :=
  { tables with
    extensions := update tables.extensions kind operator.extension
    powers := update tables.powers kind operator.power }

/-- The operator that a kind is. What has a form and no power binds weakest. -/
def operators (tables : Tables) (kind : Kind) : Option Operator :=
  (tables.extensions kind).map fun extension =>
    ⟨(tables.powers kind).getD .lowest, extension⟩

/-- Looks the next token up in a table. -/
def lookup {α : Type} (entries : Kind → Option α) : Rule (Option α) := do
  return (← Rule.kind?).bind entries

variable (tables : Tables) (below : Goal → Rule Tree)

/-- Extends an expression by the operator at the next token, if it binds tighter than `above`. -/
def extend (above : Power) (left : Tree) : Rule (Option Tree) := do
  match ← lookup tables.operators with
  | none => return none
  | some operator =>
    if operator.power ≤ above then return none
    some <$> operator.extension.rule below left operator.power

/-- An expression whose operators bind tighter than `above`. -/
def expression (above : Power) : Rule Tree := do
  match ← lookup tables.expressions with
  | none => Rule.fail .expression
  | some handler =>
    let left ← handler.rule below
    Rule.chain (tables.extend below above) left

/-- One nesting level: the rule for a goal, with what lies below as given. A token that announces no
declaration starts a statement, and one that announces no statement starts an expression. -/
def level : Goal → Rule Tree
  | .declaration => do
    match ← lookup tables.declarations with
    | some handler => handler.rule below
    | none => below .statement
  | .statement => do
    match ← lookup tables.statements with
    | some handler => handler.rule below
    | none => Form.expressionStatement below
  | .expression above => tables.expression below above

/-- Reads a part with the given number of nesting levels left. Without one, nothing can be read. -/
def read : Nat → Goal → Rule Tree
  | 0, _ => Rule.fail .nestingTooDeep
  | levels + 1, goal => tables.level (read levels) goal

end Tables

/-- How many nesting levels may be open at once. -/
def nestingLimit : Nat := 256

end Scriptlet
