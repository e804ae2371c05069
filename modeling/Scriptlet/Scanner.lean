import Scriptlet.Element

/-!
# Scanning

A scanner stands at a place in a source text and knows how far it has come: the characters passed
so far, the line it is on, and where that line began. `tokenize` moves one element at a time to the
end of the text and collects the tokens on the way; the first error ends it.
-/

namespace Scriptlet

/-- The number of bytes that encode the text. -/
def byteLength : List Char → Nat
  | [] => 0
  | c :: cs => c.utf8Size + byteLength cs

/-- What is left of a text after `n` bytes of its encoding. -/
def dropBytes (n : Nat) : List Char → List Char
  | [] => []
  | c :: cs => if n = 0 then c :: cs else dropBytes (n - c.utf8Size) cs

theorem dropBytes_zero (cs : List Char) : dropBytes 0 cs = cs := by
  cases cs <;> simp [dropBytes]

/-- Dropping the bytes of a text from before the rest leaves the rest. -/
theorem dropBytes_append (cs rest : List Char) : dropBytes (byteLength cs) (cs ++ rest) = rest := by
  induction cs with
  | nil => simp [byteLength, dropBytes_zero]
  | cons c cs ih =>
    have := c.utf8Size_pos
    rw [byteLength, List.cons_append, dropBytes, if_neg (by omega), Nat.add_sub_cancel_left]
    exact ih

theorem length_dropBytes_le (n : Nat) (cs : List Char) : (dropBytes n cs).length ≤ cs.length := by
  induction cs generalizing n with
  | nil => simp [dropBytes]
  | cons c cs ih =>
    rw [dropBytes]
    split
    · exact Nat.le_refl _
    · exact Nat.le_succ_of_le (ih _)

theorem length_dropBytes_lt {n : Nat} {cs : List Char} (hn : n ≠ 0) (hcs : cs ≠ []) :
    (dropBytes n cs).length < cs.length := by
  cases cs with
  | nil => contradiction
  | cons c cs =>
    rw [dropBytes, if_neg hn]
    exact Nat.lt_succ_of_le (length_dropBytes_le _ _)

theorem byteLength_ne_zero {cs : List Char} (h : cs ≠ []) : byteLength cs ≠ 0 := by
  cases cs with
  | nil => contradiction
  | cons c cs =>
    have := c.utf8Size_pos
    rw [byteLength]
    omega

/-- A place in a source text, and how the text was passed up to it. -/
structure Scanner where
  /-- What is left of the text. -/
  rest : List Char
  /-- The number of characters passed. -/
  offset : UInt32
  /-- The number of lines ended. -/
  line : UInt32
  /-- The offset at which the current line began. -/
  lineStart : UInt32
deriving DecidableEq, Repr

namespace Scanner

/-- The scanner at the start of a text. -/
def ofString (source : String) : Scanner := ⟨source.toList, 0, 0, 0⟩

/-- The position at which the scanner stands. -/
def position (s : Scanner) : Position := ⟨s.line, s.offset - s.lineStart⟩

/-- The text ahead. -/
def remainder (s : Scanner) : String := String.ofList s.rest

/-- The next character, if the text goes on. -/
def next? (s : Scanner) : Option Char := s.rest.head?

/-- Whether the text is at its end. -/
def atEnd (s : Scanner) : Bool := s.rest.isEmpty

/-- Moves past a text without looking for line ends. The text ahead shrinks by as many bytes, the
offset grows by as many characters. -/
def advance (s : Scanner) (text : List Char) : Scanner :=
  { s with
    rest := dropBytes (byteLength text) s.rest
    offset := s.offset + UInt32.ofNat text.length }

/-- Moves past a text and counts the lines that end in it. -/
def pass (s : Scanner) (text : List Char) : Scanner :=
  let moved := s.advance text
  if text.contains '\n' then
    -- The current line begins after the last line feed of the text.
    let column := (text.reverse.takeWhile (· != '\n')).length
    { moved with
      line := moved.line + UInt32.ofNat (text.count '\n')
      lineStart := moved.offset - UInt32.ofNat column }
  else moved

@[simp] theorem rest_pass (s : Scanner) (text : List Char) :
    (s.pass text).rest = dropBytes (byteLength text) s.rest := by
  simp only [pass, advance]
  split <;> rfl

theorem length_rest_pass_lt {s : Scanner} {e : Element} (h : Element.longest? s.rest = some e) :
    (s.pass e.text).rest.length < s.rest.length := by
  rw [rest_pass]
  refine length_dropBytes_lt (byteLength_ne_zero (Element.text_ne_nil_of_longest? h)) ?_
  intro hnil
  simp [hnil, Element.longest?] at h

/-- Why no element starts with the character. -/
def refusal (c : Char) : Cause :=
  if c = '\x22' then .unterminatedText else .unexpectedCharacter c

/-- The tokens from here to the end of the text, or the first error. -/
def tokens (s : Scanner) : Except Error (List Token) :=
  match _h : Element.longest? s.rest with
  | none =>
    match s.next? with
    | none => .ok []
    | some c => .error ⟨refusal c, s.position⟩
  | some e =>
    match e.read s.position with
    | .error cause => .error ⟨cause, s.position⟩
    | .ok found => (s.pass e.text).tokens.map (found.toList ++ ·)
termination_by s.rest.length
decreasing_by exact length_rest_pass_lt _h

end Scanner

/-- The tokens of a source text, or the first error in it. -/
def tokenize (source : String) : Except Error (List Token) := (Scanner.ofString source).tokens

end Scriptlet
