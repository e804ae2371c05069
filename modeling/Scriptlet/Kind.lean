/-!
# Token kinds

The kinds of token of the language, with the text of those that always look the same and the label
of each in a listing.
-/

namespace Scriptlet

/-- The kind of a token. -/
inductive Kind where
  | identifier
  | integer
  | floating
  | text
  | plus
  | minus
  | times
  | divide
  | dot
  | leftParen
  | rightParen
  | leftBrace
  | rightBrace
  | leftBracket
  | rightBracket
  | comma
  | equal
  | greater
  | greaterEqual
  | less
  | lessEqual
  | arrow
  | lineEnd
  | letWord
  | varWord
  | funWord
  | ifWord
  | elseWord
  | whenWord
deriving DecidableEq, Repr

namespace Kind

/-- Every kind, in the order of the type. -/
def all : List Kind :=
  [.identifier, .integer, .floating, .text, .plus, .minus, .times, .divide, .dot, .leftParen,
   .rightParen, .leftBrace, .rightBrace, .leftBracket, .rightBracket, .comma, .equal, .greater,
   .greaterEqual, .less, .lessEqual, .arrow, .lineEnd, .letWord, .varWord, .funWord, .ifWord,
   .elseWord, .whenWord]

theorem mem_all (k : Kind) : k ∈ all := by
  cases k <;> decide

/-- The text of a kind whose tokens all look the same. A line end is written as an escape. -/
def symbol? : Kind → Option String
  | .identifier | .integer | .floating | .text => none
  | .plus => some "+"
  | .minus => some "-"
  | .times => some "*"
  | .divide => some "/"
  | .dot => some "."
  | .leftParen => some "("
  | .rightParen => some ")"
  | .leftBrace => some "\x7b"
  | .rightBrace => some "\x7d"
  | .leftBracket => some "["
  | .rightBracket => some "]"
  | .comma => some ","
  | .equal => some "="
  | .greater => some ">"
  | .greaterEqual => some ">="
  | .less => some "<"
  | .lessEqual => some "<="
  | .arrow => some "->"
  | .lineEnd => some "\\n"
  | .letWord => some "let"
  | .varWord => some "var"
  | .funWord => some "fun"
  | .ifWord => some "if"
  | .elseWord => some "else"
  | .whenWord => some "when"

/-- The name of a kind in a listing of tokens. -/
def label : Kind → String
  | .identifier => "IDENTIFIER"
  | .integer => "INTEGERLITERAL"
  | .floating => "FLOATINGLITERAL"
  | .text => "STRINGLITERAL"
  | .plus => "PLUS"
  | .minus => "MINUS"
  | .times => "MULTIPLY"
  | .divide => "DIVIDE"
  | .dot => "DOT"
  | .leftParen => "LPAREN"
  | .rightParen => "RPAREN"
  | .leftBrace => "LBRACE"
  | .rightBrace => "RBRACE"
  | .leftBracket => "LBRACKET"
  | .rightBracket => "RBRACKET"
  | .comma => "COMMA"
  | .equal => "EQUAL"
  | .greater => "GREATERTHAN"
  | .greaterEqual => "GREATEROREQUALTHAN"
  | .less => "LOWERTHAN"
  | .lessEqual => "LOWEROREQUALTHAN"
  | .arrow => "ARROW"
  | .lineEnd => "NEWLINE"
  | .letWord => "LET"
  | .varWord => "VAR"
  | .funWord => "FUN"
  | .ifWord => "IF"
  | .elseWord => "ELSE"
  | .whenWord => "WHEN"

instance : ToString Kind := ⟨label⟩

/-- The keyword that a word spells, if it spells one. -/
def keyword? : String → Option Kind
  | "let" => some .letWord
  | "var" => some .varWord
  | "fun" => some .funWord
  | "if" => some .ifWord
  | "else" => some .elseWord
  | "when" => some .whenWord
  | _ => none

/-- Whether the kind opens a statement, so that reading can resume there after an error. -/
def startsStatement : Kind → Bool
  | .letWord | .varWord | .funWord | .ifWord | .whenWord => true
  | _ => false

theorem startsStatement_iff (k : Kind) :
    k.startsStatement = true ↔ k ∈ [letWord, varWord, funWord, ifWord, whenWord] := by
  cases k <;> decide

end Kind

end Scriptlet
