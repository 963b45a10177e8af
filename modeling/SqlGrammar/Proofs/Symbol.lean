import SqlGrammar.Cursor

/-!
# Symbols

A symbol is what the grammar can see of a token: its kind, and the name under which it calls a
function. A cursor is read off as the list of the symbols ahead of it, so that what a parser does
can be stated without spans.
-/

set_option autoImplicit false

namespace SqlGrammar

/-- What the grammar sees of a token. -/
structure Symbol where
  kind : TokenKind
  callee? : Option String
  deriving DecidableEq, Repr

/-- The symbol of a token. -/
def Token.symbol (t : Token) : Symbol := ⟨t.kind, t.callee?⟩

/-- The `symbol` of a token has its kind, and calls the same function. -/
@[simp] theorem Token.symbol_kind (t : Token) : t.symbol.kind = t.kind := rfl

@[simp] theorem Token.symbol_callee? (t : Token) : t.symbol.callee? = t.callee? := rfl

namespace Symbol

/-- The symbol of a token of a kind that calls no function. -/
def leaf (kind : TokenKind) : Symbol := ⟨kind, none⟩

/-- The symbol of a sign. -/
def operator (sign : Operator) : Symbol := leaf (.operator sign)

/-- The symbol of a name. -/
def name (own : String) : Symbol := ⟨.identifier own, some own⟩

/-- The symbol of a keyword as it was spelled. -/
def spelled (word : Keyword) (spelling : String) : Symbol :=
  ⟨.keyword word, if word.namesFunction then some spelling else none⟩

/-- The symbol of a keyword in its canonical spelling. -/
def keyword (word : Keyword) : Symbol := spelled word word.text

/-- The kind of a symbol is computed for each of its forms. -/
@[simp] theorem leaf_kind (kind : TokenKind) : (leaf kind).kind = kind := rfl
@[simp] theorem operator_kind (sign : Operator) : (operator sign).kind = .operator sign := rfl
@[simp] theorem name_kind (own : String) : (name own).kind = .identifier own := rfl
@[simp] theorem spelled_kind (word : Keyword) (spelling : String) :
    (spelled word spelling).kind = .keyword word := rfl
@[simp] theorem keyword_kind (word : Keyword) : (keyword word).kind = .keyword word := rfl

end Symbol

/-- The symbol of a terminal. -/
def Terminal.symbol : Terminal → Symbol
  | .keyword word => .keyword word
  | .operator sign => .operator sign

/-- The `symbol` of a terminal has the kind of the terminal. -/
@[simp] theorem Terminal.symbol_kind (t : Terminal) : t.symbol.kind = t.kind := by
  cases t <;> rfl

@[simp] theorem Terminal.symbol_keyword (word : Keyword) :
    (Terminal.keyword word).symbol = .keyword word := rfl

@[simp] theorem Terminal.symbol_operator (sign : Operator) :
    (Terminal.operator sign).symbol = .operator sign := rfl

/-- No terminal is the end of the input. -/
theorem Terminal.kind_ne_eof (t : Terminal) : t.kind ≠ .eof := by
  cases t <;> simp [Terminal.kind]

theorem Terminal.ne_eof_of_eq {kind : TokenKind} {t : Terminal} (h : kind = t.kind) :
    kind ≠ .eof := by
  rw [h]
  exact t.kind_ne_eof

/-- A kind for which something is found, while nothing is for the end of the input, is not that
end. -/
theorem TokenKind.ne_eof_of_some {α : Type} {find : TokenKind → Option α}
    (heof : find .eof = none) {kind : TokenKind} {value : α} (h : find kind = some value) :
    kind ≠ .eof := by
  rintro rfl
  rw [heof] at h
  cases h

/-- Kinds that a test tells apart are different. -/
theorem TokenKind.ne_of_holds {p : TokenKind → Bool} {kind other : TokenKind}
    (h : p kind = true) (hother : p other = false) : kind ≠ other := by
  rintro rfl
  rw [hother] at h
  cases h

/-! ## Symbols ahead -/

/-- The kind of the symbol at a distance; behind the last one stands the end of the input. -/
def kindAhead (symbols : List Symbol) (distance : Nat) : TokenKind :=
  (symbols[distance]?.map Symbol.kind).getD .eof

/-- Without symbols there is the end ahead, at any distance. -/
@[simp] theorem kindAhead_nil (n : Nat) : kindAhead [] n = .eof := by
  simp [kindAhead]

@[simp] theorem kindAhead_cons_zero (s : Symbol) (ss : List Symbol) :
    kindAhead (s :: ss) 0 = s.kind := rfl

/-- `kindAhead` at a distance sees past the first symbol. -/
@[simp] theorem kindAhead_cons_succ (s : Symbol) (ss : List Symbol) (n : Nat) :
    kindAhead (s :: ss) (n + 1) = kindAhead ss n := rfl

@[simp] theorem kindAhead_cons_one (s : Symbol) (ss : List Symbol) :
    kindAhead (s :: ss) 1 = kindAhead ss 0 := rfl

@[simp] theorem kindAhead_cons_two (s : Symbol) (ss : List Symbol) :
    kindAhead (s :: ss) 2 = kindAhead ss 1 := rfl

namespace Cursor

/-- The symbols ahead of a cursor. -/
def symbols (c : Cursor) : List Symbol := c.ahead.map Token.symbol

/-- The symbols of a cursor are as many as the tokens that remain. -/
theorem length_symbols (c : Cursor) : c.symbols.length = c.remaining := by
  simp [symbols, remaining]

/-- The last token of a cursor is the end of the input. -/
theorem kind_final (c : Cursor) : c.final.kind = .eof := by
  simpa [Token.isEof] using c.final_isEof

/-- Looking ahead sees the symbols. -/
theorem kindAt_eq (c : Cursor) (n : Nat) : c.kindAt n = kindAhead c.symbols n := by
  unfold kindAt peek kindAhead symbols
  rw [List.getElem?_map]
  cases c.ahead[n]? with
  | none => simp [kind_final]
  | some t => rfl

theorem kindAt_zero (c : Cursor) : c.kindAt 0 = c.current.kind := by
  obtain ⟨ahead, final, hfinal⟩ := c
  cases ahead <;> rfl

/-- Moving on takes the first symbol off, unless it marks the end. -/
theorem symbols_advance {c : Cursor} {s : Symbol} {ss : List Symbol} (h : c.symbols = s :: ss)
    (hs : s.kind ≠ .eof) : c.advance.symbols = ss := by
  obtain ⟨ahead, final, hfinal⟩ := c
  cases ahead with
  | nil => simp [symbols] at h
  | cons t ts =>
    simp only [symbols, List.map_cons, List.cons.injEq] at h
    obtain ⟨rfl, rfl⟩ := h
    have ht : t.isEof = false := by simpa [Token.isEof] using hs
    simp [advance, ht, symbols]

/-- Behind a token that does not mark the end, everything is one place nearer. -/
theorem kindAt_advance {c : Cursor} (h : c.kindAt 0 ≠ .eof) (n : Nat) :
    c.advance.kindAt n = c.kindAt (n + 1) := by
  cases hsymbols : c.symbols with
  | nil =>
    rw [kindAt_eq, hsymbols] at h
    exact absurd (kindAhead_nil 0) h
  | cons s ss =>
    rw [kindAt_eq, hsymbols] at h
    rw [kindAt_eq, kindAt_eq, symbols_advance hsymbols h, hsymbols, kindAhead_cons_succ]

/-- Moving on over a token that is not the end leaves fewer. -/
theorem remaining_advance_lt {c : Cursor} (h : c.kindAt 0 ≠ .eof) :
    c.advance.remaining < c.remaining := by
  cases hsymbols : c.symbols with
  | nil =>
    rw [c.kindAt_eq, hsymbols] at h
    exact absurd (kindAhead_nil 0) h
  | cons s ss =>
    rw [c.kindAt_eq, hsymbols] at h
    rw [← c.advance.length_symbols, ← c.length_symbols, symbols_advance hsymbols h, hsymbols]
    exact Nat.lt_succ_self _

theorem callee?_current {c : Cursor} {s : Symbol} {ss : List Symbol} (h : c.symbols = s :: ss) :
    c.current.callee? = s.callee? := by
  obtain ⟨ahead, final, hfinal⟩ := c
  cases ahead with
  | nil => simp [symbols] at h
  | cons t ts =>
    simp only [symbols, List.map_cons, List.cons.injEq] at h
    obtain ⟨rfl, -⟩ := h
    rfl

/-- The name under which the symbol at the cursor calls a function; the end of the input calls
none. -/
theorem callee?_current_eq (c : Cursor) :
    c.current.callee? = c.symbols.head?.bind Symbol.callee? := by
  cases hsymbols : c.symbols with
  | nil =>
    have hahead : c.ahead = [] := List.map_eq_nil_iff.1 hsymbols
    have hkind : c.current.kind = .eof := by rw [current, hahead]; exact c.kind_final
    rw [Token.callee?, hkind]
    rfl
  | cons s ss => rw [callee?_current hsymbols]; rfl

end Cursor

end SqlGrammar
