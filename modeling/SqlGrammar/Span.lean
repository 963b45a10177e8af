/-!
# Spans

A span is a stretch of the source text, given by the byte offsets of its two ends in UTF-8.
-/

set_option autoImplicit false

namespace SqlGrammar

/-- The bytes from offset `start` up to, and not including, offset `stop`. -/
structure Span where
  start : Nat
  stop : Nat
  deriving DecidableEq, Repr, Inhabited

namespace Span

/-- The empty span at an offset. -/
def point (offset : Nat) : Span := ⟨offset, offset⟩

/-- The number of bytes covered. -/
def length (s : Span) : Nat := s.stop - s.start

/-- Whether the span covers no byte. -/
def isEmpty (s : Span) : Bool := s.start == s.stop

/-- The least span that covers both. -/
def merge (s t : Span) : Span := ⟨min s.start t.start, max s.stop t.stop⟩

/-- The text `start..stop`. -/
def text (s : Span) : String := s!"{s.start}..{s.stop}"

end Span

end SqlGrammar
