import SqlGrammar.Token
import SqlGrammar.Text.CharClass
import SqlGrammar.Text.HexBytes
import SqlGrammar.Text.Quoted

/-!
# Scanning one token

A scan cuts one token off the front of a text that starts with no gap. It gives a verdict, the
characters it has used, and the rest; a faulty token uses characters too, so that reading can go on
behind it. `scan` looks at the first characters and picks the class of token: no two classes start
alike.
-/

set_option autoImplicit false

namespace SqlGrammar.Lexer

open Text

/-! ## Verdicts -/

/-- Why no token can be made of some characters. -/
inductive Fault where
  | unexpectedChar (c : Char)
  | unclosedString
  | unclosedName
  | unclosedBlob
  | badBlobChar
  | oddBlobDigits
  | emptyHexNumber
  | emptyExponent
  | numberRunsOn
  | namelessParameter (sigil : Char)
  deriving DecidableEq, Repr

/-- The message for a reader. -/
def Fault.message : Fault → String
  | unexpectedChar c => "unexpected character '" ++ c.toString ++ "'"
  | unclosedString => "unterminated string literal"
  | unclosedName => "unterminated quoted identifier"
  | unclosedBlob => "unterminated blob literal"
  | badBlobChar => "invalid character in blob literal"
  | oddBlobDigits => "odd number of hex digits in blob literal"
  | emptyHexNumber => "malformed hexadecimal literal"
  | emptyExponent => "malformed exponent in numeric literal"
  | numberRunsOn => "malformed numeric literal"
  | namelessParameter sigil => "parameter name expected after '" ++ sigil.toString ++ "'"

/-- The outcome of a scan: what the characters of `lexeme` are, and the text behind them. -/
structure Scan where
  verdict : Except Fault TokenKind
  lexeme : List Char
  rest : List Char

/-! ## Words -/

/-- The kind of an unquoted word: the keyword it spells, or else an identifier. -/
def wordKind (word : String) : TokenKind :=
  match Keyword.ofText? word with
  | some k => .keyword k
  | none => .identifier word

/-- The longest run of word characters. -/
def scanWord (cs : List Char) : Scan :=
  let word := cs.takeWhile continuesWord
  ⟨.ok (wordKind (String.ofList word)), word, cs.dropWhile continuesWord⟩

/-! ## Quoted texts -/

/-- A text up to its closing quote, the opening one having been read. -/
def scanQuoted (quote : Char) (kind : String → TokenKind) (unclosed : Fault) (cs : List Char) :
    Scan :=
  match Quoted.close? quote cs with
  | some q => ⟨.ok (kind (String.ofList q.value)), quote :: q.lexeme, q.rest⟩
  | none => ⟨.error unclosed, quote :: cs, []⟩

/-- A name in brackets, the opening one having been read. A bracket in the name cannot be
written. -/
def scanBracketed (cs : List Char) : Scan :=
  let name := cs.takeWhile (· ≠ ']')
  match cs.dropWhile (· ≠ ']') with
  | close :: rest =>
    ⟨.ok (.identifier (String.ofList name)), '[' :: name ++ [close], rest⟩
  | [] => ⟨.error .unclosedName, '[' :: name, []⟩

/-- A blob, of which the marker `x` and the opening quote have been read. After a character that is
no digit, everything up to the closing quote belongs to the fault. -/
def scanBlob (marker : Char) (cs : List Char) : Scan :=
  let digits := cs.takeWhile HexBytes.isDigit
  match cs.dropWhile HexBytes.isDigit with
  | [] => ⟨.error .unclosedBlob, marker :: '\'' :: digits, []⟩
  | '\'' :: rest =>
    let verdict : Except Fault TokenKind :=
      match HexBytes.decode? digits with
      | some bytes => .ok (.blob bytes)
      | none => .error .oddBlobDigits
    ⟨verdict, marker :: '\'' :: digits ++ ['\''], rest⟩
  | other =>
    let skipped := other.takeWhile (· ≠ '\'')
    let behind := other.dropWhile (· ≠ '\'')
    ⟨.error .badBlobChar, marker :: '\'' :: digits ++ skipped ++ behind.take 1, behind.drop 1⟩

/-! ## Numbers -/

/-- A numeric text whose characters have been found: it must not run on into a word. -/
def endNumber (lexeme rest : List Char) : Scan :=
  match rest.takeWhile continuesWord with
  | [] => ⟨.ok (.number (String.ofList lexeme)), lexeme, rest⟩
  | tail => ⟨.error .numberRunsOn, lexeme ++ tail, rest.dropWhile continuesWord⟩

/-- The digits of a hexadecimal number, `0x` having been read. -/
def scanHexNumber (mark : Char) (cs : List Char) : Scan :=
  match cs.takeWhile HexBytes.isDigit with
  | [] => ⟨.error .emptyHexNumber, ['0', mark], cs⟩
  | digits => endNumber ('0' :: mark :: digits) (cs.dropWhile HexBytes.isDigit)

/-- The point and the digits behind it, if a point is there. -/
def splitFraction : List Char → List Char × List Char
  | '.' :: cs => ('.' :: cs.takeWhile Char.isDigit, cs.dropWhile Char.isDigit)
  | cs => ([], cs)

/-- The sign of an exponent, if one is there. -/
def splitSign : List Char → List Char × List Char
  | '+' :: cs => (['+'], cs)
  | '-' :: cs => (['-'], cs)
  | cs => ([], cs)

/-- The exponent, if one is there, behind a mantissa. -/
def scanExponent (mantissa : List Char) : List Char → Scan
  | mark :: cs =>
    if mark = 'e' ∨ mark = 'E' then
      let (sign, behind) := splitSign cs
      match behind.takeWhile Char.isDigit with
      | [] => ⟨.error .emptyExponent, mantissa ++ mark :: sign, behind⟩
      | digits => endNumber (mantissa ++ mark :: sign ++ digits) (behind.dropWhile Char.isDigit)
    else endNumber mantissa (mark :: cs)
  | [] => endNumber mantissa []

/-- Digits, a fraction and an exponent, each of which may be missing. -/
def scanDecimal (cs : List Char) : Scan :=
  let (fraction, rest) := splitFraction (cs.dropWhile Char.isDigit)
  scanExponent (cs.takeWhile Char.isDigit ++ fraction) rest

/-- A number, which starts with a digit or with a point and a digit. -/
def scanNumber : List Char → Scan
  | '0' :: 'x' :: cs => scanHexNumber 'x' cs
  | '0' :: 'X' :: cs => scanHexNumber 'X' cs
  | cs => scanDecimal cs

/-! ## Parameters -/

/-- A parameter after its sigil: any number of digits after `?`, a name after the others. -/
def scanParameter (sigil : Char) (cs : List Char) : Scan :=
  if sigil = '?' then
    let digits := cs.takeWhile Char.isDigit
    ⟨.ok (.parameter (String.ofList (sigil :: digits))), sigil :: digits,
      cs.dropWhile Char.isDigit⟩
  else
    let inName := fun c => isLetterOrNumeric c || c == '_'
    match cs.takeWhile inName with
    | [] => ⟨.error (.namelessParameter sigil), [sigil], cs⟩
    | name =>
      ⟨.ok (.parameter (String.ofList (sigil :: name))), sigil :: name, cs.dropWhile inName⟩

/-! ## Operators -/

/-- The longest operator at the front of a text. -/
def operatorAt? (cs : List Char) : Option (List Char × Operator) :=
  Operator.spellings.find? fun entry => entry.1.isPrefixOf cs

/-- An operator, or a character that starts no token. -/
def scanOperator (c : Char) (cs : List Char) : Scan :=
  match operatorAt? (c :: cs) with
  | some (spelling, sign) => ⟨.ok (.operator sign), spelling, (c :: cs).drop spelling.length⟩
  | none => ⟨.error (.unexpectedChar c), [c], cs⟩

/-! ## All tokens -/

/-- Whether a number starts here: a digit, or a point before a digit. -/
def startsNumber (c : Char) (cs : List Char) : Bool :=
  c.isDigit || (c == '.' && cs.head?.any Char.isDigit)

/-- Scans the token that starts with `c` and goes on in `cs`. -/
def scan (c : Char) (cs : List Char) : Scan :=
  -- ahead of the operators for the sake of a point before a digit
  if startsNumber c cs then scanNumber (c :: cs)
  -- ahead of the words, which may start with the marker of a blob
  else if (c == 'x' || c == 'X') && cs.head? == some '\'' then scanBlob c cs.tail
  else if startsWord c then scanWord (c :: cs)
  else match c with
    | '\'' => scanQuoted '\'' .string .unclosedString cs
    | '\x22' => scanQuoted '\x22' .identifier .unclosedName cs
    | '\x60' => scanQuoted '\x60' .identifier .unclosedName cs
    | '[' => scanBracketed cs
    | '?' => scanParameter '?' cs
    | ':' => scanParameter ':' cs
    | '@' => scanParameter '@' cs
    | '$' => scanParameter '$' cs
    | _ => scanOperator c cs

end SqlGrammar.Lexer
