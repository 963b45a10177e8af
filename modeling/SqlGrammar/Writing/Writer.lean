import SqlGrammar.Writing.Piece

/-!
# Writers

A writer holds the text written so far, and whether the next piece stands next to it. Otherwise one
space separates the next piece from the text.
-/

set_option autoImplicit false

namespace SqlGrammar

/-- A text in the making. -/
structure Writer where
  dialect : Dialect
  text : String
  glued : Bool

namespace Writer

/-- A writer without text. -/
def start (d : Dialect) : Writer := ⟨d, "", true⟩

/-- Writes a piece. -/
def push (w : Writer) (p : Piece) : Writer :=
  let gap := if w.glued || p.attaches then "" else " "
  { w with text := w.text ++ gap ++ p.text w.dialect, glued := p.gluesNext }

/-- Writes pieces, one after the other. -/
def pushAll (w : Writer) (ps : List Piece) : Writer := ps.foldl push w

end Writer

/-- The text of pieces in a dialect. -/
def Dialect.render (d : Dialect) (ps : List Piece) : String := ((Writer.start d).pushAll ps).text

end SqlGrammar
