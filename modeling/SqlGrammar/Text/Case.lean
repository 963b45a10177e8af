/-!
# Letter case

Reserved words are read in any case. Only ASCII letters have a case here: `é` and `É` spell
different words.
-/

set_option autoImplicit false

namespace SqlGrammar.Text

/-- The text with its ASCII letters in upper case and all else as it stands. -/
def upper (s : String) : String := String.ofList (s.toList.map Char.toUpper)

/-- The characters change one by one. -/
@[simp] theorem toList_upper (s : String) : (upper s).toList = s.toList.map Char.toUpper := by
  simp [upper]

end SqlGrammar.Text
