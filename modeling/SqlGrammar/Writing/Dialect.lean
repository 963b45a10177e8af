import SqlGrammar.Keyword
import SqlGrammar.Text.CharClass
import SqlGrammar.Text.Quoted

/-!
# Dialects

What differs between databases when a text is written: how names are quoted, and when, and how a
place for a value is marked.
-/

set_option autoImplicit false

namespace SqlGrammar

/-- Whether a name has to be quoted, lest it be read as something else: unless it is a word and no
keyword. -/
def needsQuotes (name : String) : Bool :=
  match name.toList with
  | [] => true
  | c :: cs =>
    !Text.startsWord c || !cs.all Text.continuesWord || (Keyword.ofText? name).isSome

/-- The habits of a database in writing. -/
structure Dialect where
  name : String
  quote : Char := '\x22'
  placeholder : String := "?"
  needsQuoting : String → Bool := needsQuotes
  quoteName : String → String := Text.Quoted.enclose quote

namespace Dialect

/-- The dialect in which texts are written unless another is given. -/
def sqlite : Dialect where
  name := "sqlite"

/-- A name, quoted if it has to be. -/
def writeName (d : Dialect) (name : String) : String :=
  if d.needsQuoting name then d.quoteName name else name

end Dialect

end SqlGrammar
