import Formula.Text.Alphabetic
import Formula.Text.GraphemeExtend
import Formula.Text.Ignorable
import Formula.Text.Numeric
import Formula.Text.Unprintable

/-!
# Classes of characters

What may stand in a name, what is blank, and what can be shown in a message. Each class is stated
by hand for the ASCII characters and read off a table of the Unicode standard for all others.
-/

namespace Formula.Text

/-- Whether a character is below U+0080. -/
def isAscii (c : Char) : Bool := c.toNat < 0x80

/-- Space, tab, carriage return and line feed: what may stand between lexemes. -/
def isBlank (c : Char) : Bool := c == ' ' || c == '\t' || c == '\r' || c == '\n'

/-- A letter, of any script. -/
def isLetter (c : Char) : Bool :=
  if isAscii c then c.isAlpha else alphabetic.has c.toNat

/-- A letter or a numeric character, of any script. -/
def isLetterOrNumber (c : Char) : Bool :=
  if isAscii c then c.isAlphanum else alphabetic.has c.toNat || numeric.has c.toNat

/-- Whether a name may begin with the character. -/
def beginsName (c : Char) : Bool := c == '_' || isLetter c

/-- Whether a name may go on with the character. -/
def continuesName (c : Char) : Bool := c == '_' || isLetterOrNumber c

/-- The halfwidth voiced and semi-voiced sound marks. They extend a grapheme, yet each takes a place
of its own in the line, so they can be read wherever they stand. -/
def isHalfwidthSoundMark (c : Char) : Bool := c == '\uFF9E' || c == '\uFF9F'

/-- Whether the character is drawn on the one before it. -/
def joinsPrevious (c : Char) : Bool :=
  !isAscii c && graphemeExtend.has c.toNat && !isHalfwidthSoundMark c

/-- Whether the character has a shape of its own; a space does. -/
def isPrintable (c : Char) : Bool :=
  if isAscii c then 0x20 ≤ c.toNat && c.toNat < 0x7F
  else !(unprintable.has c.toNat || ignorable.has c.toNat)

end Formula.Text
