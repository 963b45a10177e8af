import SqlGrammar.Proofs.Tree.RegroupRule
import SqlGrammar.Proofs.Tree.WellFormed
import SqlGrammar.Proofs.Writing.Rendered

/-!
# Well-formed trees are written legibly

The pieces of a well-formed tree can all be read, and no two neighbours run together. `Tidy` is the
form of this that passes on to longer texts: a tidy group of pieces does not start with a point, and
does not end with a piece that draws the next one to itself.
-/

set_option autoImplicit false

namespace SqlGrammar

open Lexer Pieces Text

variable {d : Dialect}

/-! ## Keywords in any case -/

section Case

variable {c : Char}

/-- A character whose capital satisfies `startsWord` does so itself: `Char.toUpper` only changes
small letters. -/
theorem startsWord_of_toUpper (h : startsWord c.toUpper = true) : startsWord c = true := by
  unfold Char.toUpper at h
  split at h
  · next hlower =>
    have halpha : c.isAlpha = true := isAlpha_iff.2 (.inr hlower)
    simp [startsWord, isLetter, halpha]
  · exact h

theorem continuesWord_of_toUpper (h : continuesWord c.toUpper = true) : continuesWord c = true := by
  unfold Char.toUpper at h
  split at h
  · next hlower =>
    have halpha : c.isAlpha = true := isAlpha_iff.2 (.inr hlower)
    simp [continuesWord, isLetterOrNumeric, isLetter, halpha]
  · exact h

/-- Characters whose capitals are a word are one themselves. -/
theorem isWord_of_upper {cs : List Char} (h : isWord (cs.map Char.toUpper) = true) :
    isWord cs = true := by
  cases cs with
  | nil => cases h
  | cons c cs =>
    simp only [List.map_cons, isWord, Bool.and_eq_true, List.all_map] at h ⊢
    refine ⟨startsWord_of_toUpper h.1, List.all_eq_true.2 fun d hd => ?_⟩
    exact continuesWord_of_toUpper (List.all_eq_true.1 h.2 d hd)

/-- A keyword is a word in whatever case it is spelled. -/
theorem alone_spelled {word : Keyword} {spelling : String}
    (h : Keyword.ofText? spelling = some word) : Alone (.keyword word) spelling.toList := by
  -- a word is a keyword if it spells one in capitals
  have hupper : word.text = upper spelling := by
    have := List.find?_some h
    rwa [beq_iff_eq] at this
  have hword : isWord spelling.toList = true := by
    refine isWord_of_upper ?_
    rw [← toList_upper, ← hupper]
    exact isWord_text word
  have halone := alone_word hword
  rwa [String.ofList_toList, wordKind, h] at halone

end Case

/-! ## Tidy groups of pieces -/

namespace Piece

/-- Whether the piece is a point or a sign, so that it matters what stands next to it. -/
def isTight : Piece → Bool
  | dot | sign _ => true
  | _ => false

/-- Only a piece with `isTight` can run into the next one, unless that is a point. -/
theorem Apart.of_loose {p q : Piece} (hp : p.isTight = false) (hq : q ≠ dot) : p.Apart d q where
  minus h := by rw [h] at hp; cases hp
  digit h := by rw [h] at hp; cases hp
  point h := absurd h hq

end Piece

namespace Pieces

/-- `Legible` groups are so together if the pieces that meet are `Apart`. -/
theorem Legible.append {ps qs : List Piece} (hps : Legible d ps) (hqs : Legible d qs)
    (h : ∀ p ∈ ps.getLast?, ∀ q ∈ qs.head?, p.Apart d q) : Legible d (ps ++ qs) := by
  induction ps with
  | nil => exact hqs
  | cons p ps ih =>
    cases ps with
    | nil =>
      cases qs with
      | nil => exact hps
      | cons q qs => exact ⟨hps, h p rfl q rfl, hqs⟩
    | cons p' ps =>
      exact ⟨hps.head, hps.apart p' rfl,
        ih hps.tail fun p hp => h p (by rwa [List.getLast?_cons_cons])⟩

/-- The pieces are legible, also between other tidy groups. -/
structure Tidy (d : Dialect) (ps : List Piece) : Prop where
  legible : Legible d ps
  head : ps.head? ≠ some .dot
  last : ∀ p ∈ ps.getLast?, p.isTight = false

namespace Tidy

theorem nil : Tidy d [] := ⟨trivial, by simp, by simp⟩

/-- A readable piece is tidy if it is neither a point nor a sign. -/
theorem single {p : Piece} (h : p.Readable d) (hp : p.isTight = false) : Tidy d [p] := by
  refine ⟨h, ?_, ?_⟩
  · rintro ⟨⟩
    cases hp
  · rintro q ⟨⟩
    exact hp

/-- Tidy groups one behind the other: where they meet `Apart.of_loose` applies. -/
theorem append {ps qs : List Piece} (hps : Tidy d ps) (hqs : Tidy d qs) : Tidy d (ps ++ qs) := by
  refine ⟨hps.legible.append hqs.legible fun p hp q hq => ?_, ?_, ?_⟩
  -- the groups meet where the first one ends loosely and the second starts with no point
  · refine .of_loose (hps.last p hp) ?_
    rintro rfl
    exact hqs.head hq
  · cases ps with
    | nil => exact hqs.head
    | cons p ps => exact hps.head
  · intro p hp
    rw [List.getLast?_append] at hp
    cases hlast : qs.getLast? with
    | none => rw [hlast] at hp; exact hps.last p hp
    | some q => rw [hlast] at hp; exact hqs.last p (by rwa [hlast])

theorem cons {p : Piece} {ps : List Piece} (h : p.Readable d) (hp : p.isTight = false)
    (hps : Tidy d ps) : Tidy d (p :: ps) :=
  (single h hp).append hps

/-- By induction over the list, with `Tidy.append` at each step. -/
theorem flatMap {α : Type} {f : α → List Piece} {as : List α} (h : ∀ a ∈ as, Tidy d (f a)) :
    Tidy d (as.flatMap f) := by
  induction as with
  | nil => exact nil
  | cons a as ih =>
    rw [List.flatMap_cons]
    exact (h a (by simp)).append (ih fun b hb => h b (by simp [hb]))

theorem keywords (words : List Keyword) : Tidy d (Pieces.keywords words) := by
  induction words with
  | nil => exact nil
  | cons word words ih => exact cons trivial rfl ih

/-- A comma is loose, so that items stay tidy with commas between them. -/
theorem commaList {items : List (List Piece)} (h : ∀ ps ∈ items, Tidy d ps) :
    Tidy d (Pieces.commaList items) := by
  fun_induction Pieces.commaList items with
  | case1 => exact nil
  | case2 only => exact h only (by simp)
  | case3 first second rest ih =>
    exact (h first (by simp)).append (cons trivial rfl (ih fun ps hps => h ps (by simp_all)))

/-- Both parentheses are loose. -/
theorem inParens {ps : List Piece} (h : Tidy d ps) : Tidy d (Pieces.inParens ps) :=
  cons trivial rfl (h.append (single trivial rfl))

theorem flag (words : List Keyword) (set : Bool) : Tidy d (Pieces.flag words set) := by
  cases set with
  | false => exact nil
  | true => exact keywords words

/-- The keywords of a `clause` are loose. -/
theorem clause (words : List Keyword) {ps : Option (List Piece)} (h : ∀ qs ∈ ps, Tidy d qs) :
    Tidy d (Pieces.clause words ps) := by
  cases ps with
  | none => exact nil
  | some qs => exact (keywords words).append (h qs rfl)

theorem listClause (words : List Keyword) {items : List (List Piece)}
    (h : ∀ ps ∈ items, Tidy d ps) : Tidy d (Pieces.listClause words items) := by
  cases items with
  | nil => exact nil
  | cons ps items => exact (keywords words).append (commaList h)

theorem name (own : String) : Tidy d [.name own] := single trivial rfl

theorem keyword (word : Keyword) : Tidy d [.keyword word] := single trivial rfl

theorem closeParen : Tidy d [.closeParen] := single trivial rfl

theorem keywordName (word : Keyword) (own : String) : Tidy d [.keyword word, .name own] :=
  (keyword word).append (name own)

theorem names (owns : List String) : Tidy d (Pieces.names owns) :=
  commaList fun ps hps => by
    obtain ⟨own, -, rfl⟩ := List.mem_map.1 hps
    exact name own

/-- Pieces that there may be are tidy if they are where there are some. -/
theorem getD {α : Type} {f : α → List Piece} {o : Option α} (h : ∀ a ∈ o, Tidy d (f a)) :
    Tidy d ((o.map f).getD []) := by
  cases o with
  | none => exact nil
  | some a => exact h a rfl

/-- An operand is tidy whether it has parentheses around it or not. -/
theorem parensUnless (fits : Bool) {ps : List Piece} (h : Tidy d ps) :
    Tidy d (SqlGrammar.parensUnless fits ps) := by
  cases fits with
  | true => exact h
  | false => exact h.inParens

end Tidy

end Pieces

/-! ## Leaves -/

/-- The text of a number is scanned as one token, by `isNumber_iff_alone`. -/
theorem rawToken_of_isNumber {text : String} (h : IsToken (.number text) text) :
    Piece.RawToken text := .single _ (isNumber_iff_alone.1 h)

/-- The text of a parameter is scanned as one token, by `isParameter_iff_alone`. -/
theorem rawToken_of_isParameter {text : String} (h : IsToken (.parameter text) text) :
    Piece.RawToken text := .single _ (isParameter_iff_alone.1 h)

/-- A literal with `WellMade` is one piece that can be read. -/
theorem Literal.tidy {value : Literal} (h : value.WellMade) : Tidy d value.pieces := by
  cases value with
  | number text => exact .single (rawToken_of_isNumber h) rfl
  | _ => exact .single trivial rfl

theorem SignedNumber.tidy {number : SignedNumber} (h : number.WellMade) : Tidy d number.pieces := by
  obtain ⟨sign, hsign, text, htext, hnumber⟩ := h
  refine .single ?_ rfl
  have halone := isNumber_iff_alone.1 hnumber
  simp only [List.mem_cons, List.not_mem_nil, or_false] at hsign
  rcases hsign with rfl | rfl | rfl
  · exact .single _ (by rwa [htext, String.empty_append])
  · exact .signed '-' text.toList text (by rw [htext, String.toList_append]; rfl) (.inl rfl) halone
  · exact .signed '+' text.toList text (by rw [htext, String.toList_append]; rfl) (.inr rfl) halone

/-- The numbers of a type need `WellMade`; its name is quoted where needed. -/
theorem TypeName.tidy {type : TypeName} (h : type.WellMade) : Tidy d type.pieces := by
  obtain ⟨name, length, scale⟩ := type
  cases length with
  | none => exact .name name
  | some length =>
    have hlength : Tidy d length.pieces := SignedNumber.tidy (h.length length rfl)
    have hhead : Tidy d [.name name, .callParen] := .cons trivial rfl (.single trivial rfl)
    cases scale with
    | none => exact (hhead.append hlength).append (.single trivial rfl)
    | some scale =>
      have hscale : Tidy d scale.pieces := SignedNumber.tidy (h.scale scale rfl).1
      have hcomma : Tidy d [.comma] := .single trivial rfl
      exact (((hhead.append hlength).append hcomma).append hscale).append (.single trivial rfl)

/-- What starts with a digit is a number. -/
theorem head?_not_isDigit {kind : TokenKind} {cs : List Char} (h : Alone kind cs)
    (hkind : kind.isNumber = false) : ∀ c ∈ cs.head?, c.isDigit = false := by
  rintro c hc
  obtain ⟨c', tail, rfl, hscan⟩ := h.scanned
  cases hc
  rw [Bool.eq_false_iff]
  intro hdigit
  have hnumber : startsNumber c tail = true := by rw [startsNumber, hdigit, Bool.true_or]
  rw [scan_number hnumber] at hscan
  rw [scanNumber_kind hscan] at hkind
  cases hkind

/-- What starts with a minus is the operator. -/
theorem head?_ne_minus {kind : TokenKind} {cs : List Char} (h : Alone kind cs)
    (hkind : kind ≠ .operator .minus) : cs.head? ≠ some '-' := by
  intro hc
  obtain ⟨c', tail, rfl, hscan⟩ := h.scanned
  cases hc
  have hminus : scan '-' tail = ⟨.ok (.operator .minus), ['-'], tail⟩ := rfl
  rw [hminus] at hscan
  simp only [Scan.mk.injEq, Except.ok.injEq] at hscan
  exact hkind hscan.1.symm

/-- No name starts with a digit as it is written, since it is quoted if it would. -/
theorem head?_name_not_isDigit (hd : d.Standard) (own : String) :
    ∀ c ∈ ((Piece.name own).text d).toList.head?, c.isDigit = false :=
  head?_not_isDigit (alone_writeName hd own) rfl

/-- A name and a point in front of what starts with no digit. -/
theorem Pieces.Tidy.point {q : Piece} {ps : List Piece} (table : String)
    (hq : ∀ c ∈ (q.text d).toList.head?, c.isDigit = false) (h : Tidy d (q :: ps)) :
    Tidy d (.name table :: .dot :: q :: ps) := by
  -- a name in front of a point is no number
  refine ⟨⟨trivial, ⟨?_, ?_, ?_⟩, trivial, ⟨?_, ?_, ?_⟩, h.legible⟩, by simp, ?_⟩
  · intro h; cases h
  · intro h; cases h
  · intro _; rfl
  · intro h; cases h
  · exact fun _ => hq
  · rintro rfl; exact absurd rfl h.head
  · rw [List.getLast?_cons_cons, List.getLast?_cons_cons]
    exact h.last

/-- The name behind the point does not start with a digit, so that the point starts no number. -/
theorem QualifiedName.tidy (hd : d.Standard) (name : QualifiedName) : Tidy d name.pieces := by
  obtain ⟨schema, own⟩ := name
  cases schema with
  | none => exact .name own
  | some schema => exact (Tidy.name own).point schema (head?_name_not_isDigit hd own)

theorem aliasPieces_tidy (aliasName : Option String) : Tidy d (aliasPieces aliasName) :=
  .clause _ fun ps hps => by
    obtain ⟨own, -, rfl⟩ := Option.map_eq_some_iff.1 hps
    exact .name own

theorem SelectSource.tidy (hd : d.Standard) (source : SelectSource) : Tidy d source.pieces := by
  cases source with
  | table source =>
    refine ((source.table.tidy hd).append (aliasPieces_tidy _)).append (.getD fun hint _ => ?_)
    cases hint with
    | indexedBy index => exact (Tidy.keywords _).append (.name index)
    | notIndexed => exact .keywords _
  | join clause => cases clause

theorem directionPieces_tidy (direction : Option SortDirection) :
    Tidy d (directionPieces direction) :=
  .getD fun _ _ => .single trivial rfl

/-- A keyword that is the name of a function is written as it is, and is a token of its own. -/
theorem calleePieces_tidy (name : String) : Tidy d (calleePieces name) := by
  unfold calleePieces
  split
  -- a keyword that names a function is written in whatever case it has
  · next h =>
    cases hword : Keyword.ofText? name with
    | none => simp [hword] at h
    | some word => exact .single (.single _ (alone_spelled hword)) rfl
  · exact .name name

/-- No operator between operands is a sign that draws the next piece to itself. -/
theorem BinaryOp.tidy (op : BinaryOp) : Tidy d op.pieces := by
  unfold BinaryOp.pieces
  induction op.terminals with
  | nil => exact .nil
  | cons t ts ih =>
    refine .cons ?_ ?_ ih
    · cases t with
      | keyword word => trivial
      | operator sign => exact Option.isSome_iff_exists.2 ⟨sign, Operator.spelled?_text sign⟩
    · cases t <;> rfl

/-! ## Expressions -/

/-- An operand of a sign that is no negation does not start with a minus. -/
theorem Expr.head?_rightPieces (hd : d.Standard) {e : Expr} (h : (Phrase.expr e).WellMade)
    (hneg : e.isNegation = false) :
    ∀ q ∈ (e.rightPieces signPower).head?, (q.text d).toList.head? ≠ some '-' := by
  have hword : ∀ word : Keyword, ((Piece.keyword word).text d).toList.head? ≠ some '-' :=
    fun word => head?_ne_minus (alone_keyword word) (by simp)
  have hname : ∀ own, ((Piece.name own).text d).toList.head? ≠ some '-' :=
    fun own => head?_ne_minus (alone_writeName hd own) (by simp)
  have hparen : (Piece.openParen.text d).toList.head? ≠ some '-' := by simp [Piece.text]
  -- what binds more weakly than a sign stands in parentheses, all else starts with its own token
  cases e with
  | literal value =>
    cases value with
    | number text =>
      rintro q ⟨⟩
      exact head?_ne_minus (isNumber_iff_alone.1 h) (by simp)
    | string value => rintro q ⟨⟩; exact head?_ne_minus (alone_string value) (by simp)
    | blob bytes => rintro q ⟨⟩; exact head?_ne_minus (alone_blob bytes) (by simp)
    | _ => rintro q ⟨⟩; exact hword _
  | parameter text => rintro q ⟨⟩; exact head?_ne_minus (isParameter_iff_alone.1 h) (by simp)
  | column schema table own => cases schema <;> cases table <;> rintro q ⟨⟩ <;> exact hname _
  | unary op operand =>
    cases op with
    | neg => cases hneg
    | not => rintro q ⟨⟩; exact hword _
    | pos => rintro q ⟨⟩; simp [Piece.text, UnaryOp.text, UnaryOp.terminal, Terminal.text,
        Operator.text]
    | bitNot => rintro q ⟨⟩; simp [Piece.text, UnaryOp.text, UnaryOp.terminal, Terminal.text,
        Operator.text]
  | call c =>
    obtain ⟨name, args⟩ := c
    intro q hq
    change q ∈
      (calleePieces name ++ [Piece.callParen] ++ args.pieces ++ [Piece.closeParen]).head? at hq
    unfold calleePieces at hq
    split at hq
    · next hfunction =>
      cases hq
      cases hspelled : Keyword.ofText? name with
      | none => simp [hspelled] at hfunction
      | some word => exact head?_ne_minus (alone_spelled hspelled) (by simp)
    · cases hq
      exact hname _
  | cast | caseWhen | existsRow => rintro q ⟨⟩; exact hword _
  | subquery | paren => rintro q ⟨⟩; exact hparen
  | binary left op right =>
    have hfit : (binary left op right).fitsRight signPower = false := by cases op <;> rfl
    rw [rightPieces, hfit]
    rintro q ⟨⟩
    exact hparen
  | like | isNull | between | within | collate => rintro q ⟨⟩; exact hparen

/-- A prefix operator does not run into its operand. -/
theorem UnaryOp.tidy (hd : d.Standard) (op : UnaryOp) {operand : Expr}
    (h : (Phrase.expr operand).WellMade) (htidy : Tidy d operand.pieces)
    (hne : operand.rightPieces op.power ≠ []) :
    Tidy d (op.pieces operand ++ operand.rightPieces op.power) := by
  have hright : Tidy d (operand.rightPieces op.power) := htidy.parensUnless _
  have hsign : ∀ text, text = "-" ∨ text = "+" ∨ text = "~" →
      (text = "-" → ∀ q ∈ (operand.rightPieces op.power).head?,
        (q.text d).toList.head? ≠ some '-') →
      Tidy d (.sign text :: operand.rightPieces op.power) := by
    intro text htext hminus
    obtain ⟨q, ps, hps⟩ := List.exists_cons_of_ne_nil hne
    rw [hps] at hright hminus ⊢
    refine ⟨⟨htext, ⟨?_, ?_, ?_⟩, hright.legible⟩, by simp, ?_⟩
    · rintro ⟨⟩; exact hminus rfl q rfl
    · intro h; cases h
    · rintro rfl; exact absurd rfl hright.head
    · rw [List.getLast?_cons_cons]; exact hright.last
  cases op with
  | not => exact .cons trivial rfl hright
  | pos => exact hsign "+" (by simp) (fun h => absurd h (by decide))
  | bitNot => exact hsign "~" (by simp) (fun h => absurd h (by decide))
  -- a minus is kept apart from another by a space, and from nothing else
  | neg =>
    unfold UnaryOp.pieces
    cases hneg : operand.isNegation with
    | true => exact .cons rfl rfl hright
    | false => exact hsign "-" (by simp) fun _ => Expr.head?_rightPieces hd h hneg

/-- Every form of an expression has at least one piece. -/
theorem Expr.pieces_ne_nil (e : Expr) : e.pieces ≠ [] := by
  cases e with
  | literal value => cases value <;> simp [pieces, Literal.pieces]
  | unary op operand =>
    rw [pieces_unary]
    cases op <;> simp [UnaryOp.pieces]
    split <;> simp
  | binary left op right =>
    rw [pieces_binary]
    cases op <;> simp [BinaryOp.pieces, BinaryOp.terminals]
  | call c => obtain ⟨name, args⟩ := c; simp [pieces, FunctionCall.pieces]
  | _ => simp [pieces, Pieces.inParens]

theorem Expr.rightPieces_ne_nil (e : Expr) (least : Nat) : e.rightPieces least ≠ [] := by
  unfold rightPieces parensUnless
  split
  · exact e.pieces_ne_nil
  · simp [Pieces.inParens]

/-! ## All phrases -/

section Phrases

variable {P : Phrase → Prop}

/-- `Tidy` of each group of a list that `List.map` gives. -/
theorem Pieces.Tidy.map {α : Type} {f : α → List Piece} {as : List α}
    (h : ∀ a ∈ as, Tidy d (f a)) : ∀ ps ∈ as.map f, Tidy d ps := by
  intro ps hps
  obtain ⟨a, ha, rfl⟩ := List.mem_map.1 hps
  exact h a ha

theorem Pieces.Tidy.optionMap {α : Type} {f : α → List Piece} {o : Option α}
    (h : ∀ a, o = some a → Tidy d (f a)) : ∀ ps ∈ o.map f, Tidy d ps := by
  intro ps hps
  obtain ⟨a, ha, rfl⟩ := Option.map_eq_some_iff.1 hps
  exact h a ha

/-- The pieces of an expression are tidy if those of its parts are. -/
theorem Phrase.tidy_expr (hd : d.Standard) {e : Expr} (hmade : (expr e).WellMade)
    (hparts : ∀ p ∈ (expr e).parts, p.WellFormed P) (ih : ∀ p ∈ (expr e).parts, Tidy d p.pieces) :
    Tidy d e.pieces := by
  have hleft : ∀ {x : Expr} {power : Nat}, expr x ∈ (expr e).parts →
      Tidy d (x.leftPieces power) := fun hx => (ih _ hx).parensUnless _
  have hright : ∀ {x : Expr} {least : Nat}, expr x ∈ (expr e).parts →
      Tidy d (x.rightPieces least) := fun hx => (ih _ hx).parensUnless _
  cases e with
  | literal value => exact Literal.tidy hmade
  | parameter text => exact .single (rawToken_of_isParameter hmade) rfl
  | column schema table own =>
    have hpoint := Tidy.point (table.getD "") (head?_name_not_isDigit hd own) (.name own)
    cases table with
    | none =>
      cases schema with
      | none => exact .name own
      -- a schema stands in front of a table only
      | some schema => exact absurd (hmade rfl) (by simp)
    | some table =>
      cases schema with
      | none => exact hpoint
      | some schema => exact hpoint.point schema (head?_name_not_isDigit hd table)
  | unary op operand =>
    have hoperand := ih (.expr operand) (by simp [parts])
    exact op.tidy hd (hparts (.expr operand) (by simp [parts])).self.1 hoperand
      (operand.rightPieces_ne_nil _)
  | binary left op right =>
    exact ((hleft (by simp [parts])).append op.tidy).append (hright (by simp [parts]))
  | like subject op pattern escape negated =>
    rw [Expr.pieces_like]
    exact ((((hleft (by simp [parts])).append (.flag _ _)).append (.keyword _)).append
      (hright (by simp [parts]))).append (.clause _ (.optionMap fun x hx =>
        hright (by simp [parts, hx])))
  | isNull subject negated =>
    exact (((hleft (by simp [parts])).append (.keyword _)).append (.flag _ _)).append
      (.keyword _)
  | between subject low high negated =>
    exact (((((hleft (by simp [parts])).append (.flag _ _)).append
      (.keyword _)).append (hright (by simp [parts]))).append
      (.keyword _)).append (hright (by simp [parts]))
  | within subject s negated =>
    have hset : Tidy d s.pieces := ih (.set s) (by simp [parts])
    exact (((hleft (by simp [parts])).append (.flag _ _)).append (.keyword _)).append
      hset.inParens
  | call c => exact ih (.call c) (by simp [parts])
  | cast subject type =>
    have hsubject : Tidy d subject.pieces := ih (.expr subject) (by simp [parts])
    have htype : Tidy d type.pieces := TypeName.tidy hmade
    have hopen : Tidy d [.keyword .CAST, .callParen] := .cons trivial rfl (.single trivial rfl)
    exact (((hopen.append hsubject).append (.keyword _)).append htype).append .closeParen
  | caseWhen operand branches otherwise =>
    simp only [Expr.pieces, exprPieces?_eq, branchesPieces_eq]
    exact ((((Tidy.keyword _).append (.getD fun x hx =>
      ih (.expr x) (by simp_all [parts]))).append (.flatMap fun b hb =>
      ih (.branch b) (by simp [parts, hb]))).append (.clause _ (.optionMap fun x hx =>
      ih (.expr x) (by simp [parts, hx])))).append (.keyword _)
  | collate subject collation =>
    exact (hleft (by simp [parts])).append (.cons trivial rfl (.name collation))
  | existsRow q =>
    have hq : Tidy d q.pieces := ih (.query q) (by simp [parts])
    exact .cons trivial rfl hq.inParens
  | subquery q =>
    have hq : Tidy d q.pieces := ih (.query q) (by simp [parts])
    exact hq.inParens
  | paren inner =>
    have hinner : Tidy d inner.pieces := ih (.expr inner) (by simp [parts])
    exact hinner.inParens

/-- The pieces of a query are tidy if those of its parts are. -/
theorem Phrase.tidy_query (hd : d.Standard) {q : Select}
    (ih : ∀ p ∈ (query q).parts, Tidy d p.pieces) : Tidy d q.pieces := by
  obtain ⟨distinct, columns, sources, filter, groupBy, having, orderBy, bound⟩ := q
  have hexpr : ∀ {e : Option Expr}, (∀ x, e = some x → .expr x ∈ parts (.query
      ⟨distinct, columns, sources, filter, groupBy, having, orderBy, bound⟩)) →
      ∀ ps ∈ e.map Expr.pieces, Tidy d ps :=
    fun he => .optionMap fun x hx => ih (.expr x) (he x hx)
  have hhaving : Tidy d (if groupBy.isEmpty then [] else
      clause [.HAVING] (having.map Expr.pieces)) := by
    -- what is demanded of groups is left out where there are none
    split
    · exact .nil
    · exact .clause _ (hexpr (by simp +contextual [parts]))
  simp only [Select.pieces, columnsPieces_eq, exprPieces?_eq, exprsPieces_eq,
    termsPieces_eq, limitPieces?_eq]
  exact ((((((((Tidy.keyword _).append (.flag _ _)).append
    (.commaList (.map fun c hc => ih (.column c) (by simp [parts, hc])))).append
    (.listClause _ (.map fun s _ => s.tidy hd))).append
    (.clause _ (hexpr (by simp +contextual [parts])))).append
    (.listClause _ (.map fun e he => ih (.expr e) (by simp [parts, he])))).append
    hhaving).append
    (.listClause _ (.map fun t ht => ih (.term t) (by simp [parts, ht])))).append
    (.clause _ (.optionMap fun l hl => ih (.limit l) (by simp [parts, hl])))

/-- The pieces of a well-formed phrase are tidy. -/
theorem Phrase.tidy (hd : d.Standard) {p : Phrase} (h : p.WellFormed P) : Tidy d p.pieces := by
  induction h with
  | @intro p hself hparts ih =>
    cases p with
    | expr e => exact tidy_expr hd hself.1 hparts ih
    | call c =>
      obtain ⟨name, a⟩ := c
      have ha : Tidy d a.pieces := ih (.args a) (by simp [parts])
      have hparen : Tidy d [.callParen] := .single trivial rfl
      exact (((calleePieces_tidy name).append hparen).append ha).append .closeParen
    | args a =>
      cases a with
      | star => exact .single rfl rfl
      | list distinct es =>
        simp only [pieces, CallArgs.pieces, exprsPieces_eq]
        exact (Tidy.flag _ _).append
          (.commaList (.map fun e he => ih (.expr e) (by simp [parts, he])))
    | set s =>
      cases s with
      | values es =>
        simp only [pieces, InSet.pieces, exprsPieces_eq]
        exact .commaList (.map fun e he => ih (.expr e) (by simp [parts, he]))
      | query q => exact ih (.query q) (by simp [parts])
    | branch b =>
      obtain ⟨condition, result⟩ := b
      have hcondition : Tidy d condition.pieces := ih (.expr condition) (by simp [parts])
      have hresult : Tidy d result.pieces := ih (.expr result) (by simp [parts])
      exact (((Tidy.keyword _).append hcondition).append (.keyword _)).append
        hresult
    | column c =>
      cases c with
      | all => exact .single rfl rfl
      | allOf table =>
        refine .point table (fun c hc => ?_) (.single rfl rfl)
        obtain rfl : '*' = c := by simpa [Piece.text, Piece.ofTerminal, Operator.text] using hc
        rfl
      | expr e name =>
        have he : Tidy d e.pieces := ih (.expr e) (by simp [parts])
        exact he.append (aliasPieces_tidy name)
    | term t =>
      obtain ⟨key, direction⟩ := t
      have hkey : Tidy d key.pieces := ih (.expr key) (by simp [parts])
      exact hkey.append (directionPieces_tidy direction)
    | limit l =>
      obtain ⟨bound, offset⟩ := l
      have hbound : Tidy d bound.pieces := ih (.expr bound) (by simp [parts])
      simp only [pieces, LimitClause.pieces, exprPieces?_eq]
      exact hbound.append (.clause _ (.optionMap fun x hx => ih (.expr x) (by simp [parts, hx])))
    | query q => exact tidy_query hd ih

/-- The case of expressions of `Phrase.tidy`. -/
theorem Expr.tidy (hd : d.Standard) {e : Expr} (h : e.WellFormed P) : Tidy d e.pieces :=
  Phrase.tidy hd h

/-- The case of queries of `Phrase.tidy`. -/
theorem Select.tidy (hd : d.Standard) {q : Select} (h : q.WellFormed P) : Tidy d q.pieces :=
  Phrase.tidy hd h

/-! ## Definitions -/

theorem conflictPieces_tidy (resolution : Option ConflictResolution) :
    Tidy d (conflictPieces resolution) := .getD fun _ _ => .keywords _

theorem namesInParens_tidy (columns : List String) : Tidy d (namesInParens columns) := by
  unfold namesInParens
  split
  · exact .nil
  · exact (Tidy.names columns).inParens

/-- A reference is made of names and keywords, so that nothing needs to be assumed of it. -/
theorem ForeignKey.tidy (key : ForeignKey) : Tidy d key.pieces := by
  refine (((Tidy.keywordName _ _).append (namesInParens_tidy _)).append
    (.flatMap fun rule _ => ?_)).append (.getD fun deferral _ => ?_)
  · cases rule with
    | onDelete action => exact .keywords _
    | onUpdate action => exact .keywords _
    | matching name => exact .keywordName _ name
  · exact ((Tidy.flag _ _).append (.keyword _)).append (.keywords _)

/-- An indexed column is made of names and keywords. -/
theorem IndexedColumn.tidy (column : IndexedColumn) : Tidy d column.pieces :=
  ((Tidy.name _).append (.clause _ (.optionMap fun c _ => .name c))).append
    (directionPieces_tidy _)

/-- Each of the three forms of a default is tidy if its value is well-formed. -/
theorem DefaultValue.tidy (hd : d.Standard) {value : DefaultValue} (h : value.WellFormed P) :
    Tidy d value.pieces := by
  cases value with
  | signed number => exact SignedNumber.tidy h
  | literal value =>
    refine Literal.tidy ?_
    cases value with
    | number text => exact absurd rfl (h text)
    | _ => trivial
  | expr value => exact (Expr.tidy hd h).inParens

/-- One case for each rule of a column. -/
theorem ColumnRule.tidy (hd : d.Standard) {rule : ColumnRule} (h : rule.WellFormed P) :
    Tidy d rule.pieces := by
  cases rule with
  | primaryKey direction onConflict autoincrement =>
    exact (((Tidy.keywords _).append (directionPieces_tidy _)).append
      (conflictPieces_tidy _)).append (.flag _ _)
  | notNull onConflict => exact (Tidy.keywords _).append (conflictPieces_tidy _)
  | unique onConflict => exact (Tidy.keyword _).append (conflictPieces_tidy _)
  | check condition => exact .cons trivial rfl (Expr.tidy hd h).inParens
  | default value => exact .cons trivial rfl (DefaultValue.tidy hd h)
  | collate collation => exact .cons trivial rfl (.name collation)
  | foreignKey key => exact key.tidy

theorem constraintNamePieces_tidy (name : Option String) : Tidy d (constraintNamePieces name) :=
  .clause _ (.optionMap fun n _ => .name n)

theorem ColumnDefinition.tidy (hd : d.Standard) {column : ColumnDefinition}
    (h : column.WellFormed P) : Tidy d column.pieces :=
  ((Tidy.name _).append (.getD fun t ht => TypeName.tidy (h.type t ht))).append
    (.flatMap fun c hc => (constraintNamePieces_tidy _).append
      (ColumnRule.tidy hd (h.constraints c hc)))

/-- One case for each rule of a table. -/
theorem TableRule.tidy (hd : d.Standard) {rule : TableRule} (h : rule.WellFormed P) :
    Tidy d rule.pieces := by
  cases rule with
  | key kind columns onConflict =>
    exact ((Tidy.keywords _).append
      (Tidy.commaList (.map fun c _ => IndexedColumn.tidy c)).inParens).append
      (conflictPieces_tidy _)
  | check condition => exact .cons trivial rfl (Expr.tidy hd h).inParens
  | foreignKey columns key =>
    exact ((Tidy.keywords _).append (Tidy.names _).inParens).append key.tidy

theorem TableConstraint.tidy (hd : d.Standard) {constraint : TableConstraint}
    (h : constraint.rule.WellFormed P) : Tidy d constraint.pieces :=
  (constraintNamePieces_tidy _).append (TableRule.tidy hd h)

/-! ## Statements -/

theorem filterPieces_tidy (hd : d.Standard) {filter : Option Expr}
    (h : ∀ e ∈ filter, e.WellFormed P) : Tidy d (filterPieces filter) :=
  .clause _ (.optionMap fun e he => Expr.tidy hd (h e he))

/-- The pieces of an insertion from its verb to its source. -/
theorem Insert.tidy (hd : d.Standard) {statement : Insert} (h : statement.WellFormed P) :
    Tidy d statement.pieces := by
  refine ((((Tidy.keywords _).append (.keyword _)).append
    (QualifiedName.tidy hd _)).append (namesInParens_tidy _)).append ?_
  obtain ⟨verb, table, columns, source⟩ := statement
  cases source with
  | values rows =>
    refine .cons trivial rfl (.commaList (.map fun row hrow => Tidy.inParens ?_))
    rw [exprsPieces_eq]
    exact .commaList (.map fun e he => Expr.tidy hd ((h.2 row hrow).2 e he))
  | query q => exact Select.tidy hd h
  | defaults => exact .keywords _

theorem Assignment.tidy (hd : d.Standard) {assignment : Assignment}
    (h : assignment.value.WellFormed P) : Tidy d assignment.pieces :=
  ((Tidy.name _).append (.single (p := .ofTerminal Operator.eq) rfl rfl)).append (Expr.tidy hd h)

/-- The pieces of an update in order, with its new values as a `commaList`. -/
theorem Update.tidy (hd : d.Standard) {statement : Update} (h : statement.WellFormed P) :
    Tidy d statement.pieces :=
  (((((Tidy.keyword _).append (.clause _ (.optionMap fun _ _ => .keyword _))).append
    (QualifiedName.tidy hd _)).append (.keyword _)).append
    (.commaList (.map fun a ha => Assignment.tidy hd (h.assignments a ha)))).append
    (filterPieces_tidy hd h.filter)

theorem Delete.tidy (hd : d.Standard) {statement : Delete} (h : statement.WellFormed P) :
    Tidy d statement.pieces :=
  ((Tidy.keywords _).append (QualifiedName.tidy hd _)).append (filterPieces_tidy hd h)

theorem createPieces_tidy (temporary : Bool) (object : Keyword) (ifNotExists : Bool) :
    Tidy d (createPieces temporary object ifNotExists) :=
  (((Tidy.keyword _).append (.flag _ _)).append (.keyword _)).append (.flag _ _)

/-- The columns of a table are a `commaList`, and each constraint has a comma before it. -/
theorem TableBody.tidy (hd : d.Standard) {body : TableBody} (h : body.WellFormed P) :
    Tidy d body.pieces := by
  cases body with
  | columns own constraints withoutRowid =>
    obtain ⟨-, hown, hconstraints⟩ := h
    have hopen : Tidy d [.openParen] := .single trivial rfl
    refine (((hopen.append (.commaList (.map fun c hc =>
      ColumnDefinition.tidy hd (hown c hc)))).append (.flatMap fun c hc =>
      .cons (p := .comma) trivial rfl
        (TableConstraint.tidy hd (hconstraints c hc)))).append .closeParen).append ?_
    cases withoutRowid with
    | false => exact .nil
    | true =>
      have hword : Alone (.identifier "ROWID") "ROWID".toList := alone_name (by decide)
      exact .cons trivial rfl (.single (.single _ hword) rfl)
  | asSelect q => exact .cons trivial rfl (Select.tidy hd h)

theorem CreateTable.tidy (hd : d.Standard) {statement : CreateTable}
    (h : statement.body.WellFormed P) : Tidy d statement.pieces :=
  ((createPieces_tidy _ _ _).append (QualifiedName.tidy hd _)).append (TableBody.tidy hd h)

theorem CreateIndex.tidy (hd : d.Standard) {statement : CreateIndex} (h : statement.WellFormed P) :
    Tidy d statement.pieces :=
  (((((((Tidy.keyword _).append (.flag _ _)).append (.keyword _)).append (.flag _ _)).append
    (QualifiedName.tidy hd _)).append (.keywordName _ _)).append
    (Tidy.commaList (.map fun c _ => IndexedColumn.tidy c)).inParens).append
    (filterPieces_tidy hd h.filter)

theorem CreateView.tidy (hd : d.Standard) {statement : CreateView}
    (h : statement.query.WellFormed P) : Tidy d statement.pieces :=
  ((((createPieces_tidy _ _ _).append (QualifiedName.tidy hd _)).append
    (namesInParens_tidy _)).append (.keyword _)).append (Select.tidy hd h)

theorem TriggerEvent.tidy (event : TriggerEvent) : Tidy d event.pieces := by
  cases event with
  | delete => exact .keyword _
  | insert => exact .keyword _
  | update columns => exact .cons trivial rfl (.listClause _ (.map fun c _ => .name c))

theorem Drop.tidy (hd : d.Standard) (statement : Drop) : Tidy d statement.pieces :=
  ((Tidy.keywords _).append (.flag _ _)).append (QualifiedName.tidy hd _)

theorem Alter.tidy (hd : d.Standard) {statement : Alter} (h : statement.action.WellFormed P) :
    Tidy d statement.pieces := by
  refine ((Tidy.keywords _).append (QualifiedName.tidy hd _)).append ?_
  obtain ⟨table, action⟩ := statement
  cases action with
  | renameTo name => exact (Tidy.keywords _).append (.name name)
  | addColumn column => exact (Tidy.keywords _).append (ColumnDefinition.tidy hd h)

/-- The statements that a step can be, under `StepWellFormed`. -/
theorem Statement.tidy_step (hd : d.Standard) {statement : Statement}
    (h : statement.StepWellFormed P) : Tidy d statement.pieces := by
  cases statement with
  | select statement => exact Select.tidy hd h
  | insert statement => exact Insert.tidy hd h
  | update statement => exact Update.tidy hd h
  | delete statement => exact Delete.tidy hd h
  | _ => cases h

/-- Each step ends with its semicolon, which is loose. -/
theorem stepsPieces_tidy (hd : d.Standard) {body : List Statement}
    (h : ∀ s ∈ body, s.StepWellFormed P) : Tidy d (stepsPieces body) := by
  induction body with
  | nil => exact .nil
  | cons s body ih =>
    exact (Statement.tidy_step hd (h s (by simp))).append
      (.cons trivial rfl (ih fun s hs => h s (by simp [hs])))

/-- The pieces of a trigger in order, with its steps by `stepsPieces_tidy`. -/
theorem CreateTrigger.tidy (hd : d.Standard) {statement : CreateTrigger}
    (h : statement.WellFormed P) : Tidy d statement.pieces := by
  obtain ⟨temporary, ifNotExists, name, timing, event, table, forEachRow, condition, body⟩ :=
    statement
  exact (((((((((createPieces_tidy _ _ _).append (QualifiedName.tidy hd _)).append
    (.keywords _)).append event.tidy).append (.keywordName _ _)).append
    (.flag _ _)).append (.clause _ (.optionMap fun e he =>
      Expr.tidy hd (h.condition e he)))).append (.keyword _)).append
    (stepsPieces_tidy hd h.body)).append (.keyword _)

/-- One case for each kind of statement. -/
theorem Statement.tidy (hd : d.Standard) {statement : Statement} (h : statement.WellFormed P) :
    Tidy d statement.pieces := by
  cases statement with
  | select statement => exact Select.tidy hd h
  | insert statement => exact Insert.tidy hd h
  | update statement => exact Update.tidy hd h
  | delete statement => exact Delete.tidy hd h
  | createTable statement => exact CreateTable.tidy hd h
  | createIndex statement => exact CreateIndex.tidy hd h
  | createView statement => exact CreateView.tidy hd h
  | createTrigger statement => exact CreateTrigger.tidy hd h
  | drop statement => exact statement.tidy hd
  | alter statement => exact Alter.tidy hd h

/-- The pieces of a well-formed tree of any rule are tidy. -/
theorem Rule.tidy (hd : d.Standard) {r : Rule} {tree : r.Tree} (h : r.WellFormed P tree) :
    Tidy d (r.pieces tree) := by
  cases r with
  | statement => exact Statement.tidy hd h
  | select => exact Select.tidy hd h
  | insert => exact Insert.tidy hd h
  | update => exact Update.tidy hd h
  | delete => exact Delete.tidy hd h
  | createTable => exact CreateTable.tidy hd h
  | createIndex => exact CreateIndex.tidy hd h
  | createView => exact CreateView.tidy hd h
  | createTrigger => exact CreateTrigger.tidy hd h
  | drop => exact Drop.tidy hd tree
  | alter => exact Alter.tidy hd h
  | expr => exact Expr.tidy hd h
  | literal => exact Literal.tidy h
  | functionCall => exact Phrase.tidy hd h
  | resultColumn => exact Phrase.tidy hd h
  | selectSource => exact SelectSource.tidy hd tree
  | tableSource => exact SelectSource.tidy hd (.table tree)
  | joinClause => cases tree
  | orderingTerm => exact Phrase.tidy hd h
  | assignment => exact Assignment.tidy hd h
  | columnDefinition => exact ColumnDefinition.tidy hd h
  | columnConstraint => exact (constraintNamePieces_tidy _).append (ColumnRule.tidy hd h)
  | tableConstraint => exact TableConstraint.tidy hd h
  | typeName => exact TypeName.tidy h
  | signedNumber => exact SignedNumber.tidy h
  | conflictClause => exact .keywords _
  | foreignKey => exact ForeignKey.tidy tree
  | indexedColumn => exact IndexedColumn.tidy tree

end Phrases

/-- The text of a well-formed tree is read as the symbols of its pieces. -/
theorem Rule.lexes_toSql {P : Phrase → Prop} {r : Rule} {tree : r.Tree}
    (h : r.WellFormed P tree) : Lexes (r.toSql tree).toList (Pieces.symbols (r.pieces tree)) :=
  lexes_render Dialect.sqlite_standard (Rule.tidy Dialect.sqlite_standard h).legible

end SqlGrammar
