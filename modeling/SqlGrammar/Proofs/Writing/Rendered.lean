import SqlGrammar.Proofs.Lexer.Spelling
import SqlGrammar.Writing.Writer

/-!
# Rendered pieces are read back one by one

A text that was written piece by piece is read as the symbols of the pieces, one after the other:
no piece runs into its neighbour and none falls apart (`lexes_render`). Two neighbours have to be
kept apart by the tree that is written, because no space is put between them: a minus sign and
another, and a point and a number.
-/

set_option autoImplicit false

namespace SqlGrammar

open Lexer

/-! ## The symbols of pieces -/

/-- The operator that a text spells. -/
def Operator.spelled? (text : String) : Option Operator :=
  (Operator.spellings.find? fun entry => entry.1 == text.toList).map Prod.snd

theorem Operator.spelled?_text (sign : Operator) : Operator.spelled? sign.text = some sign := by
  cases sign <;> rfl

theorem Operator.mem_of_spelled? {text : String} {sign : Operator}
    (h : Operator.spelled? text = some sign) : (text.toList, sign) ∈ Operator.spellings := by
  obtain ⟨entry, hfind, rfl⟩ := Option.map_eq_some_iff.1 h
  have hspelling := List.find?_some hfind
  rw [beq_iff_eq] at hspelling
  rw [← hspelling]
  exact List.mem_of_find?_eq_some hfind

namespace Piece

/-- The symbols that a piece is read as. -/
def symbols : Piece → List Symbol
  | keyword word => [.keyword word]
  | operator text | sign text => (Operator.spelled? text).toList.map .operator
  | name own => [.name own]
  | raw text => textSymbols text
  | string value => [.leaf (.string value)]
  | blob bytes => [.leaf (.blob bytes)]
  | placeholder => [.leaf (.parameter "?")]
  | openParen | callParen => [.operator .leftParen]
  | closeParen => [.operator .rightParen]
  | comma => [.operator .comma]
  | dot => [.operator .dot]
  | semicolon => [.operator .semicolon]

@[simp] theorem symbols_ofTerminal (t : Terminal) : (ofTerminal t).symbols = [t.symbol] := by
  cases t with
  | keyword word => rfl
  | operator sign => simp [ofTerminal, symbols, Operator.spelled?_text]

/-- Whether the piece is a number. -/
def isNumeric : Piece → Bool
  | raw text => (textSymbols text).any fun s => s.kind.isNumber
  | _ => false

/-- A raw text that is read as one token, or as a sign and a number. -/
inductive RawToken (text : String) : Prop
  | single (kind : TokenKind) : Alone kind text.toList → RawToken text
  | signed (sign : Char) (digits : List Char) (number : String) :
      text.toList = sign :: digits → sign = '-' ∨ sign = '+' → Alone (.number number) digits →
        RawToken text

/-- The text of the piece can be read. -/
def Readable (d : Dialect) : Piece → Prop
  | operator text => (Operator.spelled? text).isSome = true
  | sign text => text = "-" ∨ text = "+" ∨ text = "~"
  | raw text => RawToken text
  | placeholder => d.placeholder = "?"
  | _ => True

/-- Nothing goes wrong where the second piece stands next to the first. -/
structure Apart (d : Dialect) (p q : Piece) : Prop where
  minus : p = sign "-" → (q.text d).toList.head? ≠ some '-'
  digit : p = dot → ∀ c ∈ (q.text d).toList.head?, c.isDigit = false
  point : q = dot → p.isNumeric = false

end Piece

/-- The names of the dialect are quoted where they have to be, with one of two characters. -/
structure Dialect.Standard (d : Dialect) : Prop where
  quote : d.quote = '\x22' ∨ d.quote = '\x60'
  needsQuoting : d.needsQuoting = needsQuotes
  quoteName : d.quoteName = Text.Quoted.enclose d.quote

theorem Dialect.sqlite_standard : Dialect.sqlite.Standard := ⟨.inl rfl, rfl, rfl⟩

namespace Pieces

/-- The symbols that pieces are read as. -/
def symbols (ps : List Piece) : List Symbol := ps.flatMap Piece.symbols

/-- All pieces can be read, and neighbours do not run together. -/
def Legible (d : Dialect) : List Piece → Prop
  | [] => True
  | [p] => p.Readable d
  | p :: q :: ps => p.Readable d ∧ p.Apart d q ∧ Legible d (q :: ps)

theorem Legible.head {d : Dialect} {p : Piece} {ps : List Piece} (h : Legible d (p :: ps)) :
    p.Readable d := by
  cases ps with
  | nil => exact h
  | cons q ps => exact h.1

theorem Legible.tail {d : Dialect} {p : Piece} {ps : List Piece} (h : Legible d (p :: ps)) :
    Legible d ps := by
  cases ps with
  | nil => trivial
  | cons q ps => exact h.2.2

theorem Legible.apart {d : Dialect} {p : Piece} {ps : List Piece} (h : Legible d (p :: ps)) :
    ∀ q ∈ ps.head?, p.Apart d q := by
  cases ps with
  | nil => rintro q ⟨⟩
  | cons q ps => rintro q' ⟨⟩; exact h.2.1

/-! ## The characters of a rendering -/

/-- The characters of pieces, the first of which stands next to what is before it or not. -/
def characters (d : Dialect) : Bool → List Piece → List Char
  | _, [] => []
  | glued, p :: ps =>
    (if glued || p.attaches then [] else [' ']) ++ (p.text d).toList ++
      characters d p.gluesNext ps

theorem toList_pushAll (ps : List Piece) :
    ∀ w : Writer, (w.pushAll ps).text.toList =
      w.text.toList ++ characters w.dialect w.glued ps := by
  induction ps with
  | nil => intro w; simp [Writer.pushAll, characters]
  | cons p ps ih =>
    intro w
    rw [Writer.pushAll, List.foldl_cons, ← Writer.pushAll, ih, characters]
    cases hgap : w.glued || p.attaches <;> simp [Writer.push, hgap]

theorem toList_render (d : Dialect) (ps : List Piece) :
    (d.render ps).toList = characters d true ps := by
  rw [Dialect.render, toList_pushAll]
  rfl

variable {d : Dialect}

/-- What follows a piece that draws nothing next to itself starts with a space or a mark. -/
theorem head_characters {ps : List Piece} {c : Char} (h : c ∈ (characters d false ps).head?) :
    endsToken c = true ∧ (c = '.' → ps.head? = some .dot) := by
  cases ps with
  | nil => cases h
  | cons p ps =>
    cases p <;> simp [characters, Piece.attaches, Piece.text] at h <;> subst h <;>
      exact ⟨by decide, by simp⟩

/-! ## Reading a rendering -/

/-- A token that stands alone is read in front of what ends it. -/
theorem lexes_alone {kind : TokenKind} {cs rest : List Char} {ss : List Symbol}
    (h : Alone kind cs) (hr : ∀ c ∈ rest.head?, endsToken c = true)
    (hpoint : kind.isNumber = true → ∀ c ∈ rest.head?, c ≠ '.') (hrest : Lexes rest ss) :
    Lexes (cs ++ rest) (symbolOf kind cs :: ss) :=
  h.lexes_append (fun c hc => ⟨hr c hc, fun hk => hpoint hk c hc⟩) hrest

theorem lexes_of_alone {kind : TokenKind} {cs : List Char} (h : Alone kind cs) :
    Lexes cs [symbolOf kind cs] := by
  have hlexes := h.lexes_append (.nil kind) (.nil rfl)
  rwa [List.append_nil] at hlexes

/-- A sign is a token of its own in front of what does not start with a minus. -/
theorem lexes_sign {sign : Char} (h : sign = '-' ∨ sign = '+') : ∃ op : Operator,
    ∀ {cs : List Char} {ss : List Symbol}, (∀ c ∈ cs.head?, c ≠ '-') → Lexes cs ss →
      Lexes (sign :: cs) (.operator op :: ss) := by
  rcases h with rfl | rfl
  · exact ⟨.minus, fun hhead hcs => lexes_glue .minus (by simp) (by simp) (fun _ => hhead) hcs⟩
  · exact ⟨.plus, fun _ hcs => lexes_glue .plus (by simp) (by simp) (by simp) hcs⟩

/-- A number does not start with a minus, whatever follows it. -/
theorem head?_append_ne_minus {number : String} {digits : List Char}
    (h : Alone (.number number) digits) (rest : List Char) :
    ∀ c ∈ (digits ++ rest).head?, c ≠ '-' := by
  obtain ⟨c, tail, rfl, hscan⟩ := h.scanned
  rintro d ⟨⟩ rfl
  have hstart := startsNumber_of_scan hscan
  simp [startsNumber] at hstart

/-- A raw text is read in front of what ends it. -/
theorem lexes_raw {text : String} {rest : List Char} {ss : List Symbol} (h : Piece.RawToken text)
    (hr : ∀ c ∈ rest.head?, endsToken c = true)
    (hpoint : (Piece.raw text).isNumeric = true → ∀ c ∈ rest.head?, c ≠ '.')
    (hrest : Lexes rest ss) : Lexes (text.toList ++ rest) (textSymbols text ++ ss) := by
  cases h with
  | single kind halone =>
    have hsymbols := textSymbols_of_lexes (lexes_of_alone halone)
    rw [hsymbols]
    refine lexes_alone halone hr (fun hk => hpoint ?_) hrest
    simp [Piece.isNumeric, hsymbols, hk]
  | signed sign digits number htext hsign halone =>
    obtain ⟨op, hglue⟩ := lexes_sign hsign
    -- by itself the text has two symbols, the second of which is a number
    have hself : Lexes text.toList [.operator op, symbolOf (.number number) digits] := by
      have hhead := head?_append_ne_minus halone []
      rw [List.append_nil] at hhead
      rw [htext]
      exact hglue hhead (lexes_of_alone halone)
    have hsymbols := textSymbols_of_lexes hself
    have hnumeric : (Piece.raw text).isNumeric = true := by
      simp [Piece.isNumeric, hsymbols, TokenKind.isNumber]
    rw [htext, hsymbols]
    exact hglue (head?_append_ne_minus halone rest)
      (lexes_alone halone hr (fun _ => hpoint hnumeric) hrest)

theorem alone_writeName (hd : d.Standard) (own : String) :
    Alone (.identifier own) (d.writeName own).toList := by
  unfold Dialect.writeName
  rw [hd.needsQuoting, hd.quoteName]
  split
  · exact alone_quotedName hd.quote own
  · next h => exact alone_name (Bool.eq_false_iff.2 h)

/-- A piece that draws nothing next to itself is read in front of what ends it. -/
theorem lexes_piece (hd : d.Standard) {p : Piece} {rest : List Char} {ss : List Symbol}
    (hp : p.Readable d) (hglue : p.gluesNext = false) (hr : ∀ c ∈ rest.head?, endsToken c = true)
    (hpoint : p.isNumeric = true → ∀ c ∈ rest.head?, c ≠ '.') (hrest : Lexes rest ss) :
    Lexes ((p.text d).toList ++ rest) (p.symbols ++ ss) := by
  -- operators and punctuation are the tokens that they spell
  have hmark : ∀ {spelling : List Char} {sign : Operator}, (spelling, sign) ∈ Operator.spellings →
      Lexes (spelling ++ rest) (.operator sign :: ss) := fun h =>
    lexes_alone (alone_spelling h) hr (by simp [TokenKind.isNumber]) hrest
  cases p with
  | keyword word =>
    have h := lexes_alone (alone_keyword word) hr (by simp [TokenKind.isNumber]) hrest
    rwa [symbolOf_keyword, String.ofList_toList] at h
  | operator text =>
    obtain ⟨sign, hsign⟩ := Option.isSome_iff_exists.1 hp
    simp only [Piece.symbols, hsign, Option.toList_some, List.map_cons, List.map_nil,
      List.cons_append, List.nil_append]
    exact hmark (Operator.mem_of_spelled? hsign)
  | sign text => cases hglue
  | name own =>
    exact lexes_alone (alone_writeName hd own) hr (by simp [TokenKind.isNumber]) hrest
  | raw text => exact lexes_raw hp hr hpoint hrest
  | string value => exact lexes_alone (alone_string value) hr (by simp [TokenKind.isNumber]) hrest
  | blob bytes => exact lexes_alone (alone_blob bytes) hr (by simp [TokenKind.isNumber]) hrest
  | placeholder =>
    rw [Piece.text, show d.placeholder = "?" from hp]
    exact lexes_alone alone_placeholder hr (by simp [TokenKind.isNumber]) hrest
  | openParen => cases hglue
  | callParen => cases hglue
  | closeParen => exact hmark (text_mem_spellings .rightParen)
  | comma => exact hmark (text_mem_spellings .comma)
  | dot => cases hglue
  | semicolon => exact hmark (text_mem_spellings .semicolon)

/-- A piece that draws the next one to itself is read whatever the next one is, but for a second
minus behind a minus and a digit behind a point. -/
theorem lexes_glued {p : Piece} {rest : List Char} {ss : List Symbol}
    (hp : p.Readable d) (hglue : p.gluesNext = true)
    (hminus : p = .sign "-" → ∀ c ∈ rest.head?, c ≠ '-')
    (hdot : p = .dot → ∀ c ∈ rest.head?, c.isDigit = false) (hrest : Lexes rest ss) :
    Lexes ((p.text d).toList ++ rest) (p.symbols ++ ss) := by
  have hspelled : Operator.spelled? "-" = some .minus ∧ Operator.spelled? "+" = some .plus ∧
      Operator.spelled? "~" = some .bitNot := ⟨rfl, rfl, rfl⟩
  cases p with
  | sign text =>
    rcases hp with rfl | rfl | rfl
    · simpa [Piece.text, Piece.symbols, hspelled] using
        lexes_glue (c := '-') .minus (by simp) (by simp) (fun _ => hminus rfl) hrest
    · simpa [Piece.text, Piece.symbols, hspelled] using
        lexes_glue (c := '+') .plus (by simp) (by simp) (by simp) hrest
    · simpa [Piece.text, Piece.symbols, hspelled] using
        lexes_glue (c := '~') .bitNot (by simp) (by simp) (by simp) hrest
  | openParen => simpa [Piece.text, Piece.symbols, hspelled] using
        lexes_glue (c := '(') .leftParen (by simp) (by simp) (by simp) hrest
  | callParen => simpa [Piece.text, Piece.symbols, hspelled] using
        lexes_glue (c := '(') .leftParen (by simp) (by simp) (by simp) hrest
  | dot => simpa [Piece.text, Piece.symbols, hspelled] using
        lexes_glue (c := '.') .dot (by simp) (fun _ => hdot rfl) (by simp) hrest
  | _ => cases hglue

theorem text_ne_nil (hd : d.Standard) {p : Piece} (hp : p.Readable d) :
    (p.text d).toList ≠ [] := by
  cases p with
  | keyword word => exact (alone_keyword word).ne_nil
  | operator text =>
    obtain ⟨sign, hsign⟩ := Option.isSome_iff_exists.1 hp
    exact (alone_spelling (Operator.mem_of_spelled? hsign)).ne_nil
  | sign text => rcases hp with rfl | rfl | rfl <;> simp [Piece.text]
  | name own => exact (alone_writeName hd own).ne_nil
  | raw text =>
    cases hp with
    | single kind h => exact h.ne_nil
    | signed sign digits number htext hsign h => rw [Piece.text, htext]; exact List.cons_ne_nil _ _
  | string value => exact (alone_string value).ne_nil
  | blob bytes => exact (alone_blob bytes).ne_nil
  | placeholder =>
    rw [Piece.text, show d.placeholder = "?" from hp]
    exact alone_placeholder.ne_nil
  | _ => simp [Piece.text]

/-- A piece that stands next to what is before it starts there. -/
theorem head?_characters_glued (hd : d.Standard) {q : Piece} (hq : q.Readable d)
    (ps : List Piece) : (characters d true (q :: ps)).head? = (q.text d).toList.head? := by
  obtain ⟨c, cs, hcs⟩ := List.exists_cons_of_ne_nil (text_ne_nil hd hq)
  rw [characters, hcs]
  rfl

/-- Legible pieces are read as their symbols. -/
theorem lexes_characters (hd : d.Standard) {ps : List Piece} (h : Legible d ps) :
    ∀ glued, Lexes (characters d glued ps) (symbols ps) := by
  induction ps with
  | nil => exact fun glued => .nil rfl
  | cons p ps ih =>
    intro glued
    have hrest := ih h.tail p.gluesNext
    -- a space in front of the piece makes no difference
    suffices hpiece : Lexes ((p.text d).toList ++ characters d p.gluesNext ps)
        (p.symbols ++ symbols ps) by
      rw [characters, List.append_assoc, symbols, List.flatMap_cons, ← symbols]
      split
      · exact hpiece
      · exact hpiece.space
    cases hglue : p.gluesNext with
    | false =>
      rw [hglue] at hrest
      refine lexes_piece hd h.head hglue (fun c hc => (head_characters hc).1) ?_ hrest
      -- without a space in front only a dot could be drawn into a number
      rintro hnumeric c hc rfl
      have hdot := (h.apart .dot ((head_characters hc).2 rfl)).point rfl
      rw [hnumeric] at hdot
      cases hdot
    | true =>
      rw [hglue] at hrest
      cases ps with
      | nil => exact lexes_glued h.head hglue (by simp [characters]) (by simp [characters]) hrest
      | cons q ps =>
        -- the next piece stands right here, so that its first character counts
        have hhead := head?_characters_glued hd h.tail.head ps
        have hapart := h.apart q (by simp)
        refine lexes_glued h.head hglue (fun hp c hc hminus => ?_) (fun hp c hc => ?_) hrest
        · rw [hhead] at hc
          exact hapart.minus hp (hminus ▸ hc)
        · rw [hhead] at hc
          exact hapart.digit hp c hc

/-- A rendering is read as the symbols of its pieces. -/
theorem lexes_render (hd : d.Standard) {ps : List Piece} (h : Legible d ps) :
    Lexes (d.render ps).toList (symbols ps) := by
  rw [toList_render]
  exact lexes_characters hd h true

end Pieces

end SqlGrammar
