/-!
# Operators and punctuation

The signs of the grammar, their canonical spelling, and all spellings that are read.
-/

set_option autoImplicit false

namespace SqlGrammar

/-- An operator or a punctuation mark. -/
inductive Operator where
  | plus | minus | star | slash | percent
  | eq | notEq | lt | le | gt | ge
  | concat | bitAnd | bitOr | bitNot | shiftLeft | shiftRight
  | leftParen | rightParen | comma | semicolon | dot
  deriving DecidableEq, Repr, Inhabited

namespace Operator

/-- The canonical spelling. -/
def text : Operator → String
  | plus => "+"
  | minus => "-"
  | star => "*"
  | slash => "/"
  | percent => "%"
  | eq => "="
  | notEq => "!="
  | lt => "<"
  | le => "<="
  | gt => ">"
  | ge => ">="
  | concat => "||"
  | bitAnd => "&"
  | bitOr => "|"
  | bitNot => "~"
  | shiftLeft => "<<"
  | shiftRight => ">>"
  | leftParen => "("
  | rightParen => ")"
  | comma => ","
  | semicolon => ";"
  | dot => "."

/-- All operators. -/
def all : List Operator :=
  [plus, minus, star, slash, percent, eq, notEq, lt, le, gt, ge, concat, bitAnd, bitOr, bitNot,
   shiftLeft, shiftRight, leftParen, rightParen, comma, semicolon, dot]

/-- No operator is missing from `all`. -/
theorem mem_all (o : Operator) : o ∈ all := by
  cases o <;> decide

/-- The operator with a canonical spelling. -/
def ofText? (spelling : String) : Option Operator :=
  all.find? fun o => o.text == spelling

/-- Every spelling that is read, two characters before one, so that the first spelling that starts
a text is also the longest. Equality and its negation have two spellings each. -/
def spellings : List (List Char × Operator) :=
  [(['=', '='], eq), (['<', '='], le), (['<', '>'], notEq), (['<', '<'], shiftLeft),
   (['>', '='], ge), (['>', '>'], shiftRight), (['!', '='], notEq), (['|', '|'], concat),
   (['('], leftParen), ([')'], rightParen), ([','], comma), ([';'], semicolon), (['+'], plus),
   (['-'], minus), (['*'], star), (['/'], slash), (['%'], percent), (['~'], bitNot),
   (['&'], bitAnd), (['.'], dot), (['='], eq), (['<'], lt), (['>'], gt), (['|'], bitOr)]

end Operator

end SqlGrammar
