import SqlGrammar.Text.CharRanges

/-!
# Character classes

The four classes that decide where a word, a number and a blank end: letters, digits of any script,
blanks, and the ASCII digits. Words are made of letters, digits, `_` and `$`; a word starts with a
letter or `_`.
-/

set_option autoImplicit false

namespace SqlGrammar.Text

/-- A letter: ASCII, or any character with the Unicode property Alphabetic. -/
def isLetter (c : Char) : Bool :=
  c.isAlpha || (Nat.ble 0x80 c.toNat && letterRanges.contains c.toNat)

/-- A digit of any script, or a character that stands for a number such as `½`. -/
def isNumeric (c : Char) : Bool :=
  c.isDigit || (Nat.ble 0x80 c.toNat && numberRanges.contains c.toNat)

/-- A letter or a digit of any script. -/
def isLetterOrNumeric (c : Char) : Bool :=
  isLetter c || isNumeric c

/-- A blank: any character with the Unicode property White_Space. -/
def isBlank (c : Char) : Bool :=
  blankRanges.contains c.toNat

/-- A character that can start a word: a letter or an underscore. -/
def startsWord (c : Char) : Bool :=
  isLetter c || c == '_'

/-- A character that can go on a word: a letter, a digit of any script, an underscore or a dollar
sign. -/
def continuesWord (c : Char) : Bool :=
  isLetterOrNumeric c || c == '_' || c == '$'

end SqlGrammar.Text
