import Scriptlet.Text.Ranges

/-!
# White space

Two sets with different jobs: the separators that a source line may hold between tokens, and
Unicode's white space, which is cut from the end of a quoted source line.
-/

namespace Scriptlet.Text

/-- The code points with the property `White_Space`. -/
def whiteSpace : Ranges :=
  [(0x9, 0xD), (0x20, 0x20), (0x85, 0x85), (0xA0, 0xA0), (0x1680, 0x1680), (0x2000, 0x200A),
   (0x2028, 0x2029), (0x202F, 0x202F), (0x205F, 0x205F), (0x3000, 0x3000)]

/-- Whether the character has the property `White_Space`. -/
def isWhiteSpace (c : Char) : Bool := whiteSpace.covers c.toNat

/-- Whether the character separates tokens without ending the line. -/
def isBlank (c : Char) : Bool := c == ' ' || c == '\t' || c == '\r'

/-- Whether the character indents a line. -/
def isIndent (c : Char) : Bool := c == ' ' || c == '\t'

/-- The text without the white space at its end. -/
def trimEnd (cs : List Char) : List Char := (cs.reverse.dropWhile isWhiteSpace).reverse

end Scriptlet.Text
