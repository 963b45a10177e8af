import SqlGrammar.Build.InsertBuilder
import SqlGrammar.Proofs.Reading.Statement
import SqlGrammar.Proofs.Reading.Within

/-!
# Insertions of placeholders

An insertion of one row of placeholders, however long, is read back from its text with three levels:
one for the insertion and two for each placeholder (`parseRule_insert_of_placeholders`).
-/

set_option autoImplicit false

namespace SqlGrammar

open SqlGrammar.Parser Grammar Lexer

namespace Grammar

/-- The symbol of a placeholder. -/
def placeholderSymbol : Symbol := .leaf (.parameter "?")

/-- Placeholders, each behind a comma. -/
def furtherPlaceholders (n : Nat) : List Symbol :=
  (List.replicate n [Symbol.operator .comma, placeholderSymbol]).flatten

variable {rest : List Symbol}

/-! ## A row -/

/-- The two levels are those of the expression and of its operand. -/
theorem readsWithin_placeholder (hrest : infixPower? (kindAhead rest 0) = none) :
    ReadsWithin productions 2 Rule.expr.parse (placeholderSymbol :: rest) .placeholder rest := by
  have htake : ReadsWithin productions 0 (advance >>= fun _ => pure (Expr.parameter "?"))
      (placeholderSymbol :: rest) .placeholder rest :=
    readsWithin_of_flat (by simp) (reads_bind (reads_advance nofun) (reads_pure _ _))
  have hprimary : ReadsWithin productions 0 primary (placeholderSymbol :: rest) .placeholder rest :=
    readsWithin_bind (readsWithin_of_flat flat_kind (reads_kind _))
      (readsWithin_bind (readsWithin_of_flat (flat_isNext _) (reads_isNext _ _)) htake)
  -- no operator follows
  have hnone : infixHere? 0 (kindAhead rest 0) (kindAhead rest 1) = none := by
    rw [infixHere?, hrest]
  exact readsWithin_goal (g := Goal.rule .expr) (readsWithin_goal (g := Goal.operand 0)
    (readsWithin_operand rfl hprimary (readsWithin_iterate_stop (readsWithin_extend_none hnone))))

theorem furtherPlaceholders_succ (n : Nat) :
    furtherPlaceholders (n + 1) =
      .operator .comma :: placeholderSymbol :: furtherPlaceholders n := rfl

/-- Neither a comma nor the end of a row goes on with an expression. -/
theorem infixPower?_furtherPlaceholders (n : Nat) :
    infixPower? (kindAhead (furtherPlaceholders n ++ .operator .rightParen :: rest) 0) = none := by
  cases n <;> rfl

/-- What is read behind a first placeholder, by induction on the number of further ones. -/
theorem readsWithin_furtherPlaceholders (n : Nat) (found : List Expr) :
    ReadsWithin productions 2 (manyFrom (behind? Operator.comma Rule.expr.parse) found)
      (furtherPlaceholders n ++ .operator .rightParen :: rest)
      (found ++ List.replicate n .placeholder) (.operator .rightParen :: rest) := by
  induction n generalizing found with
  | zero =>
    rw [List.replicate_zero, List.append_nil]
    exact readsWithin_manyFrom_stop (by simp [furtherPlaceholders, Terminal.kind]) found
  | succ n ih =>
    have hitem : ReadsWithin productions 2 (behind? Operator.comma Rule.expr.parse)
        (furtherPlaceholders (n + 1) ++ .operator .rightParen :: rest) (some .placeholder)
        (furtherPlaceholders n ++ .operator .rightParen :: rest) :=
      readsWithin_bind (readsWithin_of_flat (flat_accept _) (reads_accept_true rfl))
        (readsWithin_bind (readsWithin_placeholder (infixPower?_furtherPlaceholders n))
          (readsWithin_pure _ _))
    refine readsWithin_iterate_step (readsWithin_bind hitem (readsWithin_pure _ _)) ?_ ?_
    · rw [furtherPlaceholders_succ]
      exact Nat.lt_succ_of_lt (Nat.lt_succ_self _)
    · have hmore := ih (found ++ [.placeholder])
      rwa [List.append_assoc, List.singleton_append, ← List.replicate_succ] at hmore

/-- A row of placeholders. -/
theorem readsWithin_row (n : Nat) :
    ReadsWithin productions 2 row
      (.operator .leftParen :: placeholderSymbol ::
        (furtherPlaceholders n ++ .operator .rightParen :: rest))
      (List.replicate (n + 1) .placeholder) rest := by
  have hlist : ReadsWithin productions 2 (commaSeparated Rule.expr.parse)
      (placeholderSymbol :: (furtherPlaceholders n ++ .operator .rightParen :: rest))
      (List.replicate (n + 1) .placeholder) (.operator .rightParen :: rest) :=
    readsWithin_bind (readsWithin_placeholder (infixPower?_furtherPlaceholders n))
      (readsWithin_bind (readsWithin_furtherPlaceholders n []) (readsWithin_pure _ _))
  exact readsWithin_bind (readsWithin_of_flat (flat_expect _) (reads_expect rfl))
    (readsWithin_bind hlist (readsWithin_bind
      (readsWithin_of_flat (flat_expect _) (reads_expect rfl)) (readsWithin_pure _ _)))

/-! ## An insertion -/

theorem flat_conflictResolution : conflictResolution.Flat := by
  simp only [conflictResolution, flat_bind, flat_kind, true_and]
  intro k
  split <;> simp

theorem flat_insertVerb : insertVerb.Flat := by
  simp only [insertVerb, flat_bind, flat_accept, flat_ite, flat_pure, flat_expect, flat_behind,
    flat_conflictResolution, true_and, implies_true]
  intro _ _ _ resolution
  split <;> simp

theorem flat_qualifiedName : qualifiedName.Flat := by
  simp [qualifiedName]

theorem flat_identifierList? : identifierList?.Flat := by
  simp [identifierList?, identifierList]

theorem symbols_placeholder : Pieces.symbols Expr.placeholder.pieces = [placeholderSymbol] :=
  Expr.symbols_parameter (by decide)

theorem symbols_placeholderRow (n : Nat) :
    Pieces.symbols (InsertSource.values [List.replicate (n + 1) .placeholder]).pieces =
      .keyword .VALUES :: .operator .leftParen :: placeholderSymbol ::
        (furtherPlaceholders n ++ [.operator .rightParen]) := by
  have hlist :
      Pieces.symbols (Pieces.commaList (exprsPieces (List.replicate (n + 1) .placeholder))) =
        placeholderSymbol :: furtherPlaceholders n := by
    rw [exprsPieces_eq, List.map_replicate, List.replicate_succ, Pieces.symbols_commaList_cons,
      List.flatMap_replicate, symbols_placeholder]
    rfl
  rw [InsertSource.pieces, List.map_singleton, Pieces.commaList, Pieces.symbols_cons,
    Pieces.symbols_inParens, hlist]
  rfl

variable (verb : InsertVerb) (table : QualifiedName) (columns : List String) (n : Nat)

theorem readsWithin_insertSource :
    ReadsWithin productions 2 insertSource
      (Pieces.symbols (InsertSource.values [List.replicate (n + 1) .placeholder]).pieces)
      (.values [List.replicate (n + 1) .placeholder]) [] := by
  rw [symbols_placeholderRow]
  have hrows : ReadsWithin productions 2 (commaSeparated row)
      (.operator .leftParen :: placeholderSymbol ::
        (furtherPlaceholders n ++ [.operator .rightParen]))
      [List.replicate (n + 1) .placeholder] [] :=
    readsWithin_bind (readsWithin_row n) (readsWithin_bind
      (readsWithin_manyFrom_stop (by simp [Terminal.kind]) []) (readsWithin_pure _ _))
  refine readsWithin_bind (readsWithin_of_flat (flat_acceptAll _)
    (reads_acceptAll_false (terminalsAhead_of_ne (by simp [Terminal.kind])))) ?_
  refine readsWithin_bind (readsWithin_of_flat (flat_accept _) (reads_accept_true rfl)) ?_
  exact readsWithin_bind hrows (readsWithin_pure _ _)

/-- Only the row opens goals. -/
theorem readsWithin_insert (source : InsertSource)
    (hsource : kindAhead (Pieces.symbols source.pieces) 0 = .keyword .VALUES) {need : Nat}
    (h : ReadsWithin productions need insertSource (Pieces.symbols source.pieces) source []) :
    ReadsWithin productions need insert
      (Pieces.symbols (Insert.pieces ⟨verb, table, columns, source⟩)) ⟨verb, table, columns, source⟩
      [] := by
  have hdot : kindAhead (Pieces.symbols (namesInParens columns) ++ Pieces.symbols source.pieces) 0 ≠
      .operator .dot := by
    cases columns with
    | nil => simp [namesInParens, hsource]
    | cons c cs => simp [namesInParens]
  simp only [Insert.pieces, Pieces.symbols_append, Pieces.symbols_keywords, List.append_assoc]
  refine readsWithin_bind (readsWithin_of_flat flat_insertVerb
    (reads_insertVerb verb (by simp))) ?_
  refine readsWithin_bind (readsWithin_of_flat (flat_expect _) (reads_expect rfl)) ?_
  refine readsWithin_bind (readsWithin_of_flat flat_qualifiedName
    (reads_qualifiedName table hdot)) ?_
  refine readsWithin_bind (readsWithin_of_flat flat_identifierList?
    (reads_identifierList? columns (by simp [hsource]))) ?_
  exact readsWithin_bind h (readsWithin_pure _ _)

end Grammar

/-- An insertion of a row of placeholders is read back exactly from its text. -/
theorem parseRule_insert_of_placeholders (verb : InsertVerb) (table : QualifiedName)
    (columns : List String) (n : Nat) {depth : Nat} (hdepth : 3 ≤ depth) :
    parseRule .insert (Rule.toSql .insert
      ⟨verb, table, columns, .values [List.replicate (n + 1) .placeholder]⟩) depth =
        .ok ⟨verb, table, columns, .values [List.replicate (n + 1) .placeholder]⟩ := by
  have hplaceholder : Expr.placeholder.WellFormed Phrase.Unambiguous :=
    .leaf (show IsToken (.parameter "?") "?" by decide) trivial rfl
  have hwf : Rule.WellFormed Phrase.Unambiguous .insert
      ⟨verb, table, columns, .values [List.replicate (n + 1) .placeholder]⟩ := by
    refine ⟨List.cons_ne_nil _ _, List.forall_mem_singleton.2 ⟨List.cons_ne_nil _ _, ?_⟩⟩
    intro e he
    rwa [List.eq_of_mem_replicate he]
  have hinsert : ReadsWithin productions 2 insert (Pieces.symbols (Insert.pieces _)) _ [] :=
    readsWithin_insert verb table columns _ (by rw [symbols_placeholderRow]; rfl)
      (readsWithin_insertSource n)
  exact parseRule_of_readsWithin (Rule.lexes_toSql hwf) (readsWithin_whole hinsert) hdepth

end SqlGrammar
