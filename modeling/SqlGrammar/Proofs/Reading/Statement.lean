import SqlGrammar.Parse
import SqlGrammar.Proofs.Parser.Within
import SqlGrammar.Proofs.Reading.Schema
import SqlGrammar.Proofs.Tree.RegroupRule

/-!
# Reading trees of any rule

A well-formed tree of any rule is read back from its canonical text, with the parentheses that it is
written with and otherwise unchanged, as soon as enough levels may be nested
(`parseRule_toSql`).
-/

set_option autoImplicit false

namespace SqlGrammar

open Lexer SqlGrammar.Parser Grammar

namespace Grammar

variable {rest : List Symbol}

/-! ## Statements -/

/-- The kind of a created object stands behind what modifies the creation. -/
theorem createdKind?_of_flag {modifier object : Keyword} (set : Bool) (rest : List Symbol)
    (hmodifier : modifiesCreation (.keyword modifier) = true)
    (hobject : modifiesCreation (.keyword object) = false) :
    createdKind?
        (kindAhead (Pieces.symbols (Pieces.flag [modifier] set) ++ .keyword object :: rest) 0)
        (kindAhead (Pieces.symbols (Pieces.flag [modifier] set) ++ .keyword object :: rest) 1) =
      objectKind? (.keyword object) := by
  cases set <;> simp [createdKind?, hmodifier, hobject]

theorem createdKind?_createPieces {object : Keyword} (temporary set : Bool) (rest : List Symbol)
    (hobject : modifiesCreation (.keyword object) = false) :
    createdKind? (kindAhead (Pieces.symbols (createPieces temporary object set) ++ rest) 1)
        (kindAhead (Pieces.symbols (createPieces temporary object set) ++ rest) 2) =
      objectKind? (.keyword object) := by
  simp only [createPieces, Pieces.symbols_append, List.append_assoc]
  exact createdKind?_of_flag temporary _ rfl hobject

theorem reads_creation {statement : Statement} {ss : List Symbol} (object : ObjectKind)
    (hkind : createdKind? (kindAhead ss 1) (kindAhead ss 2) = some object)
    (h : Reads (match object with
      | .table => Statement.createTable <$> Rule.createTable.parse
      | .index => Statement.createIndex <$> Rule.createIndex.parse
      | .view => Statement.createView <$> Rule.createView.parse
      | .trigger => Statement.createTrigger <$> Rule.createTrigger.parse) ss statement rest) :
    Reads creation ss statement rest := by
  refine reads_bind (reads_look 1 _) (reads_bind (reads_look 2 _) ?_)
  rw [hkind]
  cases object <;> exact h

theorem reads_statement {statement : Statement} (h : statement.WellFormed Phrase.Unambiguous)
    (hends : Opens [] rest) :
    Reads Grammar.statement (Pieces.symbols statement.pieces ++ rest) (statement.regroup .written)
      rest := by
  cases statement with
  | select q =>
    have hread := reads_query h rest (hends.all (p := endsQuery) rfl)
    rw [Statement.pieces]
    rw [Select.symbols_pieces] at hread ⊢
    exact reads_bind (reads_kind _) (reads_map hread)
  | insert statement =>
    have hread := reads_goal (g := Goal.rule .insert) (reads_insert h hends)
    obtain ⟨_ | _ | _, table, columns, source⟩ := statement <;>
      exact reads_bind (reads_kind _) (reads_map hread)
  | update statement =>
    exact reads_bind (reads_kind _) (reads_map (reads_goal (reads_update h hends)))
  | delete statement =>
    exact reads_bind (reads_kind _) (reads_map (reads_goal (reads_delete h hends)))
  | createTable statement =>
    refine reads_bind (reads_kind _) (reads_creation .table ?_
      (reads_map (reads_goal (reads_createTable h hends))))
    simp only [Statement.pieces, CreateTable.pieces, Pieces.symbols_append, List.append_assoc]
    exact createdKind?_createPieces _ _ _ rfl
  | createIndex statement =>
    refine reads_bind (reads_kind _) (reads_creation .index ?_
      (reads_map (reads_goal (reads_createIndex h hends))))
    simp only [Statement.pieces, CreateIndex.pieces, Pieces.symbols_append, List.append_assoc]
    exact createdKind?_of_flag _ _ rfl rfl
  | createView statement =>
    refine reads_bind (reads_kind _) (reads_creation .view ?_
      (reads_map (reads_goal (reads_createView h hends))))
    simp only [Statement.pieces, CreateView.pieces, Pieces.symbols_append, List.append_assoc]
    exact createdKind?_createPieces _ _ _ rfl
  | createTrigger statement =>
    -- the body of a trigger ends with a keyword, so that anything may follow
    have hread := reads_creation .trigger (by
      rw [symbols_createTrigger]
      exact createdKind?_createPieces _ _ _ rfl)
      (reads_map (reads_goal (reads_createTrigger h rest)))
    rw [Statement.pieces]
    rw [symbols_createTrigger] at hread ⊢
    exact reads_bind (reads_kind _) hread
  | drop statement =>
    exact reads_bind (reads_kind _) (reads_map (reads_goal (reads_drop statement
      (hends.ne (by decide)))))
  | alter statement =>
    have hmem : kindAhead rest 0 ∈ definitionEnds := by
      have hall := hends.all (p := definitionEnds.contains) rfl
      exact List.contains_iff_mem.1 hall
    exact reads_bind (reads_kind _) (reads_map (reads_goal (reads_alter h hmem)))

/-! ## Rules -/

/-- A well-formed tree of a rule is read back from the symbols it is written with. -/
theorem reads_rule {r : Rule} {tree : r.Tree} (h : r.WellFormed Phrase.Unambiguous tree) :
    Reads (rule r) (Pieces.symbols (r.pieces tree) ++ []) (r.regroup .written tree) [] := by
  have hopens : Opens [] [] := .of_endsQuery rfl
  have hends : kindAhead [] 0 ∈ definitionEnds := by simp [definitionEnds]
  cases r with
  | statement => exact reads_statement h hopens
  | select => exact Phrase.readsBack h [] rfl
  | insert => exact reads_insert h hopens
  | update => exact reads_update h hopens
  | delete => exact reads_delete h hopens
  | createTable => exact reads_createTable h hopens
  | createIndex => exact reads_createIndex h hopens
  | createView => exact reads_createView h hopens
  | createTrigger => exact reads_createTrigger h []
  | drop => exact reads_drop tree (by simp)
  | alter => exact reads_alter h hends
  | expr => exact Expr.ReadsBack.reads_expr (Phrase.readsBack h) rfl
  | literal =>
    obtain ⟨s, hs, hkind⟩ := Literal.symbols_pieces h
    rw [Rule.pieces, hs]
    exact reads_literal hkind
  | functionCall => exact Phrase.readsBack h []
  | resultColumn => exact Phrase.readsBack h [] rfl
  | selectSource => exact reads_selectSource tree rfl
  | tableSource => exact reads_tableSource tree rfl
  | joinClause => cases tree
  | orderingTerm => exact Phrase.readsBack h [] rfl
  | assignment => exact reads_assignment h rfl
  | columnDefinition => exact reads_columnDefinition h hends
  | columnConstraint => exact reads_columnConstraint h (.of_definitionEnds hends)
  | tableConstraint => exact reads_tableConstraint h hends
  | typeName => exact reads_typeName h rfl (by simp)
  | signedNumber => exact reads_signedNumber h []
  | conflictClause => exact reads_conflictClause tree []
  | foreignKey => exact reads_foreignKey tree (.of_definitionEnds hends)
  | indexedColumn => exact reads_indexedColumn tree (by simp) (by simp) (by simp)

theorem reads_whole {r : Rule} {tree : r.Tree} (h : r.WellFormed Phrase.Unambiguous tree) :
    Reads (whole r) (Pieces.symbols (r.pieces tree)) (r.regroup .written tree) [] := by
  have hread := reads_rule h
  rw [List.append_nil] at hread
  exact reads_bind (reads_goal hread) (reads_bind reads_expectEnd (reads_pure _ _))

/-- The whole of a text takes a level more than the production of its rule. -/
theorem readsWithin_whole {r : Rule} {need : Nat} {ss : List Symbol} {tree : r.Tree}
    (h : ReadsWithin productions need (rule r) ss tree []) :
    ReadsWithin productions (need + 1) (whole r) ss tree [] :=
  readsWithin_bind (readsWithin_goal (g := Goal.rule r) h)
    (readsWithin_of_flat (by simp) (reads_bind reads_expectEnd (reads_pure _ _)))

end Grammar

/-! ## Texts -/

/-- A cursor over tokens that end with the end of the input sees the tokens before it. -/
theorem Cursor.symbols_ofTokens {ts : List Token} {ss : List Symbol}
    (h : ts.map Token.symbol = ss ++ [Symbol.leaf .eof]) : (Cursor.ofTokens ts).symbols = ss := by
  -- the last token is the end of the input
  have hlast : ∃ init last, ts = init ++ [last] ∧ last.isEof = true ∧
      init.map Token.symbol = ss := by
    obtain ⟨init, lasts, rfl, hinit, hlasts⟩ := List.map_eq_append_iff.1 h
    obtain ⟨last, rfl, hlast⟩ := List.map_eq_singleton_iff.1 hlasts
    refine ⟨init, last, rfl, ?_, hinit⟩
    have hkind := congrArg Symbol.kind hlast
    simpa [Token.isEof] using hkind
  obtain ⟨init, last, rfl, heof, rfl⟩ := hlast
  simp [ofTokens, heof, symbols]

/-- What the grammar reads from the symbols of a text, it reads from the text. -/
theorem parseRule_of_readsWithin {r : Rule} {text : String} {symbols : List Symbol} {tree : r.Tree}
    {need depth : Nat} (htext : Lexes text.toList symbols)
    (h : ReadsWithin productions need (whole r) symbols tree []) (hdepth : need ≤ depth) :
    parseRule r text depth = .ok tree := by
  obtain ⟨ts, hts, hsymbols⟩ := tokenize_of_lexes htext
  obtain ⟨c, hrun, -⟩ := h depth depth hdepth (.ofTokens ts) (Cursor.symbols_ofTokens hsymbols)
  have hresult : Grammar.run depth (whole r) (.ofTokens ts) = .done tree c := hrun
  simp only [parseRule, Cursor.ofText, hts, Except.map, bind, Except.bind, hresult,
    Reply.toExcept]

theorem parseRule_of_reads {r : Rule} {text : String} {symbols : List Symbol} {tree : r.Tree}
    (htext : Lexes text.toList symbols) (h : Reads (whole r) symbols tree []) :
    ∃ need, ∀ depth, need ≤ depth → parseRule r text depth = .ok tree := by
  obtain ⟨need, h⟩ := h
  exact ⟨need, fun depth hdepth => parseRule_of_readsWithin htext h hdepth⟩

/-- A well-formed tree is read back from its canonical text. -/
theorem parseRule_toSql {r : Rule} {tree : r.Tree} (h : r.WellFormed Phrase.Unambiguous tree) :
    ∃ need, ∀ depth, need ≤ depth →
      parseRule r (r.toSql tree) depth = .ok (r.regroup .written tree) :=
  parseRule_of_reads (Rule.lexes_toSql h) (reads_whole h)

end SqlGrammar
