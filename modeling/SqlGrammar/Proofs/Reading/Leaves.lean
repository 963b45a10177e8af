import SqlGrammar.Proofs.Reading.Forms

/-!
# Reading names, types and lists

The parts of a grammar that hold no expressions of their own, and lists of parts with commas between
them.
-/

set_option autoImplicit false

namespace SqlGrammar

open Lexer SqlGrammar.Parser

namespace Grammar

/-! ## What ends an item of a list -/

/-- Whether a symbol of this kind ends every item of a list before it, and does not name it, sort it
or say how it is looked up. -/
def endsItem (kind : TokenKind) : Bool :=
  endsExpr kind && !kind.isIdentifier &&
    !([TokenKind.keyword .AS, .keyword .ASC, .keyword .DESC, .keyword .INDEXED].contains kind)

section Ends

variable {kind : TokenKind}

theorem endsExpr_of_endsItem (h : endsItem kind = true) : endsExpr kind = true := by
  simp only [endsItem, Bool.and_eq_true] at h
  exact h.1.1

theorem isIdentifier_of_endsItem (h : endsItem kind = true) : kind.isIdentifier = false := by
  cases kind with
  | identifier own => cases h
  | _ => rfl

end Ends

/-! ## Lists -/

/-- A list with commas between its items, each of which is read before what ends it. -/
theorem reads_commaList {α β : Type} {p : Production β} (write : α → List Piece) (value : α → β)
    (Ends : TokenKind → Prop) (as : List α) (rest : List Symbol)
    (item : ∀ a ∈ as, ∀ more, Ends (kindAhead more 0) →
      Reads p (Pieces.symbols (write a) ++ more) (value a) more)
    (hne : as ≠ []) (comma : Ends (.operator .comma)) (last : Ends (kindAhead rest 0))
    (stop : kindAhead rest 0 ≠ .operator .comma) :
    Reads (commaSeparated p) (Pieces.symbols (Pieces.commaList (as.map write)) ++ rest)
      (as.map value) rest := by
  obtain ⟨a, as, rfl⟩ := List.exists_cons_of_ne_nil hne
  have h := reads_commaSeparated (fun a => Pieces.symbols (write a)) value Ends a as rest item comma
    last stop
  rw [List.map_cons, Pieces.symbols_commaList_cons, List.append_assoc, List.flatMap_map]
  exact h

/-- A list without end conditions on its items. -/
theorem reads_commaList' {α β : Type} {p : Production β} (write : α → List Piece) (value : α → β)
    (as : List α) (rest : List Symbol)
    (item : ∀ a ∈ as, ∀ more, Reads p (Pieces.symbols (write a) ++ more) (value a) more)
    (hne : as ≠ []) (stop : kindAhead rest 0 ≠ .operator .comma) :
    Reads (commaSeparated p) (Pieces.symbols (Pieces.commaList (as.map write)) ++ rest)
      (as.map value) rest :=
  reads_commaList write value (fun _ => True) as rest (fun a ha more _ => item a ha more) hne
    trivial trivial stop

theorem reads_names {names : List String} (hne : names ≠ []) (rest : List Symbol) :
    Reads identifierList (Pieces.symbols (Pieces.inParens (Pieces.names names)) ++ rest) names
      rest := by
  rw [Pieces.symbols_inParens, List.cons_append, List.append_assoc]
  have h := reads_commaList' (fun n => [Piece.name n]) id names (.operator .rightParen :: rest)
    (fun n _ more => reads_identifier n more) hne (by simp)
  rw [List.map_id] at h
  exact reads_parenthesized h

/-! ## Keywords -/

/-- Words that are written one after the other, as terminals. -/
theorem map_symbol_keyword (words : List Keyword) :
    words.map Symbol.keyword = (words.map Terminal.keyword).map Terminal.symbol := by
  rw [List.map_map]
  rfl

theorem reads_acceptAll_flag (words : List Keyword) (set : Bool) {rest : List Symbol}
    (h : set = false → terminalsAhead rest 0 (words.map Terminal.keyword) = false) :
    Reads (acceptAll (words.map Terminal.keyword)) (Pieces.symbols (Pieces.flag words set) ++ rest)
      set rest := by
  cases set with
  | true =>
    rw [Pieces.symbols_flag_true, map_symbol_keyword]
    exact reads_acceptAll_true _ rest
  | false => exact reads_acceptAll_false (h rfl)

/-- Terminals are not ahead where the first of them is not. -/
theorem terminalsAhead_of_ne {ss : List Symbol} {t : Terminal} {ts : List Terminal}
    (h : kindAhead ss 0 ≠ t.kind) : terminalsAhead ss 0 (t :: ts) = false := by
  rw [terminalsAhead, Bool.eq_false_iff.2 (mt Terminal.accepts_iff.1 h), Bool.false_and]

/-- Terminals are not ahead where the second of them is not. -/
theorem terminalsAhead_of_ne_next {ss : List Symbol} {t u : Terminal} {ts : List Terminal}
    (h : kindAhead ss 1 ≠ u.kind) : terminalsAhead ss 0 (t :: u :: ts) = false := by
  rw [terminalsAhead, terminalsAhead, Bool.eq_false_iff.2 (mt Terminal.accepts_iff.1 h),
    Bool.false_and, Bool.and_false]

/-- The part behind a keyword, if there is one. -/
theorem reads_behind_clause {α β : Type} {p : Production β} (word : Keyword)
    (write : α → List Piece) (value : α → β) (o : Option α) (rest : List Symbol)
    (hsome : ∀ a, o = some a → Reads p (Pieces.symbols (write a) ++ rest) (value a) rest)
    (hnone : o = none → kindAhead rest 0 ≠ .keyword word) :
    Reads (behind? word p) (Pieces.symbols (Pieces.clause [word] (o.map write)) ++ rest)
      (o.map value) rest := by
  cases o with
  | none => exact reads_behind_none (hnone rfl)
  | some a =>
    rw [Option.map_some, Pieces.symbols_clause_some, List.append_assoc]
    exact reads_behind_some rfl (hsome a rfl)

/-- The list behind keywords, unless it is empty. -/
theorem reads_listBehind {α β : Type} {p : Production β} (word : Keyword) (words : List Keyword)
    (write : α → List Piece) (value : α → β) (as : List α) (rest : List Symbol)
    (hsome : as ≠ [] → Reads (commaSeparated p)
      (Pieces.symbols (Pieces.commaList (as.map write)) ++ rest) (as.map value) rest)
    (hnone : as = [] → kindAhead rest 0 ≠ .keyword word) :
    Reads (listBehind ((word :: words).map Terminal.keyword) p)
      (Pieces.symbols (Pieces.listClause (word :: words) (as.map write)) ++ rest) (as.map value)
      rest := by
  cases as with
  | nil =>
    exact reads_bind (reads_acceptAll_false (terminalsAhead_of_ne (hnone rfl))) (reads_pure _ _)
  | cons a as =>
    rw [List.map_cons (l := as), Pieces.symbols_listClause_cons, List.append_assoc,
      map_symbol_keyword]
    exact reads_bind (reads_acceptAll_true _ _) (hsome (by simp))

/-! ## Names -/

theorem reads_qualifiedName (name : QualifiedName) {rest : List Symbol}
    (h : kindAhead rest 0 ≠ .operator .dot) :
    Reads qualifiedName (Pieces.symbols name.pieces ++ rest) name rest := by
  obtain ⟨schema, own⟩ := name
  cases schema with
  | none =>
    exact reads_bind (reads_identifier own rest) (reads_bind (reads_accept_false h)
      (reads_pure _ _))
  | some schema =>
    exact reads_bind (reads_identifier schema _) (reads_bind (reads_accept_true rfl)
      (reads_bind (reads_identifier own rest) (reads_pure _ _)))

theorem reads_aliasName? (aliasName : Option String) {rest : List Symbol}
    (h : endsItem (kindAhead rest 0) = true ∨
      kindAhead rest 0 = .keyword .INDEXED ∨ kindAhead rest 0 = .keyword .NOT) :
    Reads aliasName? (Pieces.symbols (aliasPieces aliasName) ++ rest) aliasName rest := by
  cases aliasName with
  | none =>
    have hword : kindAhead rest 0 ≠ .keyword .AS := by
      rcases h with h | h | h
      · exact TokenKind.ne_of_holds h rfl
      · rw [h]; simp
      · rw [h]; simp
    have hname : (kindAhead rest 0).isIdentifier = false := by
      rcases h with h | h | h
      · exact isIdentifier_of_endsItem h
      · rw [h]; rfl
      · rw [h]; rfl
    exact reads_bind (reads_accept_false hword) (reads_identifier?_none hname)
  | some own =>
    exact reads_bind (reads_accept_true rfl) (reads_map (reads_identifier own rest))

theorem reads_direction? (direction : Option SortDirection) {rest : List Symbol}
    (hasc : kindAhead rest 0 ≠ .keyword .ASC) (hdesc : kindAhead rest 0 ≠ .keyword .DESC) :
    Reads direction? (Pieces.symbols (directionPieces direction) ++ rest) direction rest := by
  rcases direction with _ | _ | _
  · exact reads_bind (reads_accept_false hasc)
      (reads_bind (reads_accept_false hdesc) (reads_pure _ _))
  · exact reads_bind (reads_accept_true rfl) (reads_pure _ _)
  · exact reads_bind (reads_accept_false (by simp [directionPieces, SortDirection.keyword,
      Terminal.kind])) (reads_bind (reads_accept_true rfl) (reads_pure _ _))

/-! ## Sources -/

theorem reads_tableSource (source : TableSource) {rest : List Symbol}
    (h : endsItem (kindAhead rest 0) = true) :
    Reads tableSource (Pieces.symbols source.pieces ++ rest) source rest := by
  obtain ⟨table, aliasName, hint⟩ := source
  have hhint : Reads indexHint? (Pieces.symbols ((hint.map IndexHint.pieces).getD []) ++ rest) hint
      rest := by
    rcases hint with _ | index | _
    · exact reads_bind (reads_acceptAll_false (terminalsAhead_of_ne (TokenKind.ne_of_holds h rfl)))
        (reads_bind (reads_acceptAll_false (terminalsAhead_of_ne
          (TokenKind.ne_of_holds (endsExpr_of_endsItem h) rfl))) (reads_pure _ _))
    · exact reads_bind (reads_acceptAll_true [Terminal.keyword .INDEXED, .keyword .BY] _)
        (reads_bind (reads_identifier index rest) (reads_pure _ _))
    · exact reads_bind (reads_acceptAll_false (terminalsAhead_of_ne (by
        simp [IndexHint.pieces, Terminal.kind]))) (reads_bind
        (reads_acceptAll_true [Terminal.keyword .NOT, .keyword .INDEXED] rest) (reads_pure _ _))
  -- what stands behind the other name is a hint, or what ends the source
  have hahead :
      let kind := kindAhead (Pieces.symbols ((hint.map IndexHint.pieces).getD []) ++ rest) 0
      endsItem kind = true ∨ kind = .keyword .INDEXED ∨ kind = .keyword .NOT := by
    rcases hint with _ | index | _
    · exact .inl h
    · exact .inr (.inl rfl)
    · exact .inr (.inr rfl)
  have hdot : kindAhead (Pieces.symbols (aliasPieces aliasName) ++
      (Pieces.symbols ((hint.map IndexHint.pieces).getD []) ++ rest)) 0 ≠ .operator .dot := by
    cases aliasName with
    | some own => simp [aliasPieces]
    | none =>
      rcases hahead with hk | hk | hk
      · exact TokenKind.ne_of_holds (endsExpr_of_endsItem hk) rfl
      · change kindAhead (Pieces.symbols _ ++ rest) 0 ≠ _; rw [hk]; simp
      · change kindAhead (Pieces.symbols _ ++ rest) 0 ≠ _; rw [hk]; simp
  have hname : ∀ more, kindAhead (Pieces.symbols table.pieces ++ more) 0 ≠
      .operator .leftParen := by
    obtain ⟨schema, own⟩ := table
    intro more
    cases schema <;> simp [QualifiedName.pieces, Pieces.qualified]
  rw [TableSource.pieces, Pieces.symbols_append, Pieces.symbols_append, List.append_assoc,
    List.append_assoc]
  refine reads_bind (reads_isAt_false (hname _)) ?_
  exact reads_bind (reads_qualifiedName table hdot) (reads_bind (reads_aliasName? aliasName hahead)
    (reads_bind hhint (reads_pure _ _)))

theorem reads_selectSource (source : SelectSource) {rest : List Symbol}
    (h : endsItem (kindAhead rest 0) = true) :
    Reads selectSource (Pieces.symbols source.pieces ++ rest) source rest := by
  cases source with
  | table source =>
    exact reads_firstOf (reads_map (reads_goal (show Reads tableSource _ _ _ from
      reads_tableSource source h)))
  | join clause => cases clause

/-! ## Types -/

theorem reads_signedNumber {number : SignedNumber} (h : number.WellMade) (rest : List Symbol) :
    Reads signedNumber (Pieces.symbols number.pieces ++ rest) number rest := by
  obtain ⟨own⟩ := number
  obtain ⟨text, hwritten⟩ := SignedNumber.symbols_pieces h
  -- the three ways to write a sign differ only in what the reader of signs takes
  have hsign : ∃ mark before, own = mark ++ text ∧
      Pieces.symbols (SignedNumber.pieces ⟨own⟩) = before ++ [Symbol.leaf (.number text)] ∧
      Reads sign (before ++ Symbol.leaf (.number text) :: rest) mark
        (Symbol.leaf (.number text) :: rest) := by
    rcases hwritten with ⟨hown, hs⟩ | ⟨hown, hs⟩ | ⟨hown, hs⟩
    · exact ⟨"", [], hown, hs, reads_bind (reads_accept_false (by simp [Terminal.kind]))
        (reads_bind (reads_accept_false (by simp [Terminal.kind])) (reads_pure _ _))⟩
    · exact ⟨"-", [.operator .minus], hown, hs, reads_bind (reads_accept_true rfl) (reads_pure _ _)⟩
    · exact ⟨"+", [.operator .plus], hown, hs,
        reads_bind (reads_accept_false (by simp [Terminal.kind]))
          (reads_bind (reads_accept_true rfl) (reads_pure _ _))⟩
  obtain ⟨mark, before, rfl, hs, hreads⟩ := hsign
  rw [hs, List.append_assoc]
  exact reads_bind hreads (reads_bind (reads_kind _)
    (reads_bind (reads_advance (by simp [Symbol.leaf])) (reads_pure _ _)))

theorem reads_typeName {type : TypeName} (h : type.WellMade) {rest : List Symbol}
    (hname : (kindAhead rest 0).isIdentifier = false)
    (hparen : kindAhead rest 0 ≠ .operator .leftParen) :
    Reads typeName (Pieces.symbols type.pieces ++ rest) type rest := by
  obtain ⟨name, length, scale⟩ := type
  -- no second word follows the first
  have hmany : ∀ ss : List Symbol, (kindAhead ss 0).isIdentifier = false →
      Reads (many (identifier? : Production (Option String))) ss [] ss := fun ss hs =>
    reads_iterate_stop (reads_bind (reads_identifier?_none hs) (reads_pure _ _))
  have hnumber : ∀ n more, n ∈ length ∨ n ∈ scale →
      Reads Rule.signedNumber.parse (Pieces.symbols n.pieces ++ more) n more := by
    rintro n more (hn | hn)
    · exact reads_goal (show Reads signedNumber _ _ _ from reads_signedNumber (h.length n hn) more)
    · exact reads_goal (show Reads signedNumber _ _ _ from
        reads_signedNumber (h.scale n hn).1 more)
  cases length with
  | none =>
    cases scale with
    | some scale => exact absurd (h.scale scale rfl).2 (by simp)
    | none =>
      exact reads_bind (reads_identifier name rest) (reads_bind (hmany rest hname)
        (reads_bind (reads_behind_none hparen) (reads_pure _ _)))
  | some length =>
    cases scale with
    | none =>
      simp only [TypeName.pieces, Pieces.symbols_append, Pieces.symbols_cons, Pieces.symbols_nil,
        Piece.symbols_name, Piece.symbols_callParen, Piece.symbols_closeParen, List.append_assoc,
        List.cons_append, List.nil_append, List.append_nil]
      exact reads_bind (reads_identifier name _) (reads_bind (hmany _ rfl) (reads_bind
        (reads_behind_some rfl (reads_bind (hnumber length _ (.inl rfl)) (reads_bind
          (reads_behind_none (by simp [Terminal.kind])) (reads_bind (reads_expect rfl)
            (reads_pure _ _))))) (reads_pure _ _)))
    | some scale =>
      simp only [TypeName.pieces, Pieces.symbols_append, Pieces.symbols_cons, Pieces.symbols_nil,
        Piece.symbols_name, Piece.symbols_callParen, Piece.symbols_closeParen, Piece.symbols_comma,
        List.append_assoc, List.cons_append, List.nil_append, List.append_nil]
      exact reads_bind (reads_identifier name _) (reads_bind (hmany _ rfl) (reads_bind
        (reads_behind_some rfl (reads_bind (hnumber length _ (.inl rfl)) (reads_bind
          (reads_behind_some rfl (hnumber scale _ (.inr rfl))) (reads_bind (reads_expect rfl)
            (reads_pure _ _))))) (reads_pure _ _)))

end Grammar

end SqlGrammar
