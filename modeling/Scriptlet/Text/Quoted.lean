import Scriptlet.Text.Visible

/-!
# Quoted text

A string or a character is quoted in a message so that each of its characters can be told from the
others: the usual escapes for NUL, tab, line ends and the backslash, a backslash before the quote
in use, and the code point in hexadecimal for every character that is not visible by itself.
-/

namespace Scriptlet.Text

/-- The number of the code point in braces, in lower-case hexadecimal without leading zeros. -/
def codePointEscape (c : Char) : List Char :=
  ['\\', 'u', '{'] ++ Nat.toDigits 16 c.toNat ++ ['}']

/-- One character as it stands between two `quote` characters. -/
def escaped (quote c : Char) : List Char :=
  if c = '\x00' then ['\\', '0']
  else if c = '\t' then ['\\', 't']
  else if c = '\r' then ['\\', 'r']
  else if c = '\n' then ['\\', 'n']
  else if c = '\\' then ['\\', '\\']
  else if c = quote then ['\\', quote]
  else if isVisible c then [c]
  else codePointEscape c

/-- The characters between two `quote` characters. -/
def quotedWith (quote : Char) (cs : List Char) : List Char :=
  quote :: cs.flatMap (escaped quote) ++ [quote]

/-- The text between double quotes. -/
def quotedText (s : String) : String := String.ofList (quotedWith '\x22' s.toList)

/-- The character between single quotes. -/
def quotedChar (c : Char) : String := String.ofList (quotedWith '\x27' [c])

end Scriptlet.Text
