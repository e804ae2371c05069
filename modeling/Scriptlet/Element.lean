import Scriptlet.Binary32.Nearest
import Scriptlet.Error
import Scriptlet.Text.Blank
import Scriptlet.Text.DecimalDigit
import Scriptlet.Text.Letter
import Scriptlet.Token

/-!
# Lexical elements

A text is a sequence of elements: runs of blanks, line ends, marks, quoted texts, numbers and
words. `Element.longest?` finds the longest element at the start of a text, and `Element.read`
says which token an element is.
-/

namespace Scriptlet

/-- The shape of a lexical element. -/
inductive Shape where
  /-- Blanks between tokens. -/
  | blank
  /-- A line feed. -/
  | lineEnd
  /-- A mark of one or two characters. -/
  | mark (kind : Kind)
  /-- A text between double quotes, without a double quote inside. -/
  | quoted
  /-- ASCII digits, and possibly a point and more of them. -/
  | number
  /-- A letter, and letters and digits of any script after it. -/
  | word
deriving DecidableEq, Repr

/-- A lexical element: its shape and the characters it is made of. -/
structure Element where
  shape : Shape
  text : List Char
deriving DecidableEq, Repr

namespace Element

open Text

/-- The kind of a mark that is one character long, except `-`, which can go on. -/
def mark? : Char → Option Kind
  | '+' => some .plus
  | '*' => some .times
  | '/' => some .divide
  | '(' => some .leftParen
  | ')' => some .rightParen
  | '{' => some .leftBrace
  | '}' => some .rightBrace
  | '[' => some .leftBracket
  | ']' => some .rightBracket
  | ',' => some .comma
  | '=' => some .equal
  | '>' => some .greater
  | '.' => some .dot
  | _ => none

/-- Whether a word goes on with the character. -/
def continuesWord (c : Char) : Bool := isLetter c || isDecimalDigit c

/-- The point and the digits that continue a number. -/
def fractionPart : List Char → List Char
  | '.' :: cs => '.' :: cs.takeWhile Char.isDigit
  | _ => []

/-- The shape of the longest element that starts with `c`, if there is one, and how much it takes of
the text after `c`. -/
def continuation? (c : Char) (cs : List Char) : Option (Shape × List Char) :=
  if c = '-' then
    if cs.head? = some '>' then some (.mark .arrow, ['>']) else some (.mark .minus, [])
  else if c = '\n' then some (.lineEnd, [])
  else if isBlank c then some (.blank, cs.takeWhile isBlank)
  else if c = '\x22' then
    -- Without a second quote there is no element: the quotes do not close.
    if cs.contains '\x22' then some (.quoted, cs.takeWhile (· != '\x22') ++ ['\x22']) else none
  else if c.isDigit then
    some (.number, cs.takeWhile Char.isDigit ++ fractionPart (cs.dropWhile Char.isDigit))
  else if isLetter c then some (.word, cs.takeWhile continuesWord)
  else (mark? c).map fun kind => (.mark kind, [])

/-- The longest element at the start of the text, if there is one. -/
def longest? : List Char → Option Element
  | [] => none
  | c :: cs => (continuation? c cs).map fun (shape, tail) => ⟨shape, c :: tail⟩

/-- An element has at least one character. -/
theorem text_ne_nil_of_longest? {cs : List Char} {e : Element} (h : longest? cs = some e) :
    e.text ≠ [] := by
  cases cs with
  | nil => contradiction
  | cons c cs =>
    obtain ⟨⟨shape, tail⟩, -, rfl⟩ := Option.map_eq_some_iff.mp h
    exact List.cons_ne_nil c tail

/-- The largest value of an integer literal. -/
def integerLimit : Nat := 2147483647

/-- The value of a number: floating if it has a point, else an integer within the limit. -/
def number (text : List Char) : Except Cause (Kind × Payload) :=
  if text.contains '.' then
    let whole := text.takeWhile (· != '.')
    let places := text.drop (whole.length + 1)
    let digits := Nat.ofDigitChars 10 (whole ++ places) 0
    .ok (.floating, .floating (Binary32.ofDecimal digits places.length))
  else
    let value := Nat.ofDigitChars 10 text 0
    if value ≤ integerLimit then .ok (.integer, .integer (Int32.ofNat value))
    else .error (.numberTooLarge (String.ofList text))

/-- The kind and payload of a word: a keyword if it spells one, else an identifier. -/
def word (text : List Char) : Kind × Payload :=
  match Kind.keyword? (String.ofList text) with
  | some kind => (kind, .none)
  | none => (.identifier, .name (String.ofList text))

/-- The token that the element is, at the given position. Blanks are none, and a number can be too
large to be one. -/
def read (e : Element) (p : Position) : Except Cause (Option Token) :=
  match e.shape with
  | .blank => .ok none
  | .lineEnd => .ok (some (.bare .lineEnd p))
  | .mark kind => .ok (some (.bare kind p))
  | .quoted => .ok (some ⟨.text, .text (String.ofList (e.text.drop 1).dropLast), p⟩)
  | .number => (number e.text).map fun (kind, payload) => some ⟨kind, payload, p⟩
  | .word => let (kind, payload) := word e.text; .ok (some ⟨kind, payload, p⟩)

end Element

end Scriptlet
