import SqlGrammar.Proofs.Parsed.Goal
import SqlGrammar.Proofs.Reading.Query

/-!
# What queries are read from

The clauses of a query, each of which is written with the payload that was taken for it. The bound
of a query is the one clause that can be written in an order of its own: with its offset before a
comma.
-/

set_option autoImplicit false

namespace SqlGrammar

open SqlGrammar.Parser Grammar

namespace Grammar

variable {room : Nat} {input : List Symbol}

/-! ## Names -/

/-- Another name is written with the name that was taken for it. -/
theorem ensures_aliasName? : Ensures room aliasName? input fun own rest =>
    Passes input (payload (Pieces.symbols (aliasPieces own))) rest := by
  refine ensures_bind (ensures_accept _) fun taken mid has => ?_
  rcases has with ⟨rfl, hnext⟩ | ⟨rfl, rfl, -⟩
  · refine ensures_map (ensures_mono ensures_identifier fun own rest hown => ?_)
    refine (hnext.passes_keyword.trans hown.passes_name).cast ?_
    simp [aliasPieces]
  · refine ensures_mono ensures_identifier? fun own rest hown => ?_
    rcases hown with ⟨own, rfl, hnext⟩ | ⟨rfl, rfl, -⟩
    · exact hnext.passes_name.cast (by simp [aliasPieces])
    · exact .refl _

/-- A name with its schema has the point as payload. -/
theorem ensures_qualifiedName : Ensures room qualifiedName input fun name rest =>
    Passes input (payload (Pieces.symbols name.pieces)) rest := by
  have hdot : (Terminal.operator .dot).kind ≠ .operator .semicolon := by decide
  refine ensures_bind ensures_identifier fun first mid hfirst => ?_
  refine ensures_bind (ensures_accept _) fun taken mid' hpoint => ?_
  rcases hpoint with ⟨rfl, hnext⟩ | ⟨rfl, rfl, -⟩
  · refine ensures_bind ensures_identifier fun own rest hown => ensures_pure ?_
    exact hfirst.passes_name.trans ((hnext.passes hdot).trans hown.passes_name)
  · exact ensures_pure hfirst.passes_name

theorem ensures_direction? : Ensures room direction? input fun direction rest =>
    Passes input (payload (Pieces.symbols (directionPieces direction))) rest := by
  refine ensures_bind (ensures_accept _) fun taken mid hasc => ?_
  rcases hasc with ⟨rfl, hnext⟩ | ⟨rfl, rfl, -⟩
  · exact ensures_pure hnext.passes_keyword
  refine ensures_bind (ensures_accept _) fun taken mid hdesc => ?_
  rcases hdesc with ⟨rfl, hnext⟩ | ⟨rfl, rfl, -⟩
  · exact ensures_pure hnext.passes_keyword
  · exact ensures_pure (.refl _)

/-! ## Columns and order -/

/-- One case for each form of a column; its expression is `Phrase.Parsed`. -/
theorem ensures_resultColumn (h : Sound room) : Ensures room resultColumn input fun c rest =>
    Passes input (payload (Pieces.symbols c.pieces)) rest ∧
      (Phrase.column c).WellFormed Phrase.Parsed := by
  refine ensures_bind (ensures_accept _) fun taken mid hstar => ?_
  rcases hstar with ⟨rfl, hnext⟩ | ⟨rfl, rfl, -⟩
  · exact ensures_pure ⟨hnext.passes (by simp [Terminal.kind]),
      .leaf trivial ⟨trivial, trivial⟩ rfl⟩
  refine ensures_kind_bind (ensures_areAhead_bind ?_)
  split
  -- all columns of a table
  · refine ensures_bind ensures_identifier fun table mid' htable => ?_
    refine ensures_bind (ensures_expectAll _) fun _ rest hall => ?_
    obtain ⟨dotted, hdot, hall⟩ := hall.uncons
    obtain ⟨starred, hstar, hnil⟩ := hall.uncons
    rw [hnil.eq_of_nil] at hstar
    refine ensures_pure ⟨?_, .leaf trivial ⟨trivial, trivial⟩ rfl⟩
    exact htable.passes_name.trans ((hdot.passes (by simp [Terminal.kind])).trans
      (hstar.passes (by simp [Terminal.kind])))
  -- an expression
  · refine ensures_bind (h.expr _) fun value mid' hvalue => ?_
    refine ensures_bind ensures_aliasName? fun own rest hown => ensures_pure ⟨?_, ?_⟩
    · refine (hvalue.passes.trans hown).cast ?_
      simp [ResultColumn.pieces, Expr.symbols]
    · exact .single trivial ⟨trivial, trivial⟩ rfl hvalue.wellFormed

theorem ensures_orderingTerm (h : Sound room) : Ensures room orderingTerm input fun t rest =>
    Passes input (payload (Pieces.symbols t.pieces)) rest ∧
      (Phrase.term t).WellFormed Phrase.Parsed := by
  refine ensures_bind (h.expr input) fun key mid hkey => ?_
  refine ensures_bind ensures_direction? fun direction rest hdirection => ensures_pure ⟨?_, ?_⟩
  · refine (hkey.passes.trans hdirection).cast ?_
    simp [OrderingTerm.pieces, Expr.symbols]
  · exact .single trivial ⟨trivial, trivial⟩ rfl hkey.wellFormed

/-! ## Sources -/

theorem ensures_indexHint? : Ensures room indexHint? input fun hint rest =>
    Passes input (payload (Pieces.symbols ((hint.map IndexHint.pieces).getD []))) rest := by
  refine ensures_bind (ensures_acceptAll _) fun taken mid hindexed => ?_
  rcases hindexed with ⟨rfl, hall⟩ | ⟨rfl, rfl, -⟩
  · refine ensures_bind ensures_identifier fun own rest hown => ensures_pure ?_
    exact (NextAll.passes [.INDEXED, .BY] hall).trans hown.passes_name
  refine ensures_bind (ensures_acceptAll _) fun taken mid hnot => ?_
  rcases hnot with ⟨rfl, hall⟩ | ⟨rfl, rfl, -⟩
  · exact ensures_pure (NextAll.passes [.NOT, .INDEXED] hall)
  · exact ensures_pure (.refl _)

theorem ensures_tableSource : Ensures room tableSource input fun source rest =>
    Passes input (payload (Pieces.symbols source.pieces)) rest := by
  refine ensures_isAt_bind ?_
  split
  · exact ensures_unsupported
  refine ensures_bind ensures_qualifiedName fun table mid htable => ?_
  refine ensures_bind ensures_aliasName? fun own mid' hown => ?_
  refine ensures_bind ensures_indexHint? fun hint rest hhint => ensures_pure ?_
  refine (htable.trans (hown.trans hhint)).cast ?_
  simp [TableSource.pieces]

theorem ensures_selectSource (h : Sound room) : Ensures room selectSource input
    fun source rest => Passes input (payload (Pieces.symbols source.pieces)) rest := by
  refine ensures_firstOf (fun p hp => ?_) []
  simp only [List.mem_cons, List.not_mem_nil, or_false] at hp
  rcases hp with rfl | rfl
  · exact ensures_map (ensures_mono (h.goal (.rule .tableSource) input) fun _ _ hs => hs.1)
  · exact ensures_map (ensures_mono (h.goal (.rule .joinClause) input) fun join _ _ => nomatch join)

/-- The sources with the commas between them. -/
theorem ensures_sources (h : Sound room) : Ensures room sources input fun sources rest =>
    Passes input (payload (Pieces.symbols
      (Pieces.commaList (sources.map SelectSource.pieces)))) rest := by
  refine ensures_bind (ensures_accept _) fun taken mid hfrom => ?_
  rcases hfrom with ⟨rfl, hnext⟩ | ⟨rfl, rfl, -⟩
  · refine ensures_bind (ensures_commaSeparated (w := SelectSource.pieces)
      (G := fun _ => True) fun mid => h.goal (.rule .selectSource) mid) fun sources rest hs => ?_
    refine ensures_kind_bind ?_
    split
    · exact ensures_unsupported
    · exact ensures_pure (hnext.passes_keyword.trans hs.2.1)
  · exact ensures_pure (.refl _)

/-! ## Groups and bounds -/

/-- What is demanded of groups is there only if there are groups. -/
theorem ensures_grouping (h : Sound room) : Ensures room grouping input fun groups rest =>
    Passes input (payload (Pieces.symbols (groupingPieces groups.1 groups.2))) rest ∧
      (∀ e ∈ groups.1, e.WellFormed Phrase.Parsed) ∧
      (∀ e ∈ groups.2, e.WellFormed Phrase.Parsed) ∧ (groups.2.isSome = true → groups.1 ≠ []) := by
  refine ensures_bind (ensures_acceptAll _) fun taken mid hgroup => ?_
  rcases hgroup with ⟨rfl, hall⟩ | ⟨rfl, rfl, -⟩
  · refine ensures_bind (h.exprs mid) fun groupBy mid' hlist => ?_
    obtain ⟨hne, hpass, hwf⟩ := hlist
    refine ensures_bind (h.behind .HAVING mid') fun having rest hhaving => ?_
    refine ensures_pure ⟨?_, hwf, hhaving.2, fun _ => hne⟩
    refine ((NextAll.passes [.GROUP, .BY] hall).trans (hpass.trans hhaving.1)).cast ?_
    cases groupBy with
    | nil => exact absurd rfl hne
    | cons e es => simp [groupingPieces]
  · exact ensures_pure ⟨.refl _, by simp, by simp, by simp⟩

/-- Behind a `LIMIT`, only a bound with its offset before a comma is not written as it was read. -/
theorem ensures_limit (h : Sound room) : Ensures room (behind? Keyword.LIMIT limitClause) input
    fun limit rest =>
      Passes input (payload (Pieces.symbols ((limit.map LimitClause.pieces).getD []))) rest ∧
        ∀ l ∈ limit, (Phrase.limit l).WellFormed Phrase.Parsed := by
  have hwf : ∀ (x : Expr) (y : Option Expr), x.WellFormed Phrase.Parsed →
      (∀ e ∈ y, e.WellFormed Phrase.Parsed) → ∀ l ∈ some (LimitClause.mk x y),
        (Phrase.limit l).WellFormed Phrase.Parsed := by
    rintro x y hx hy l hl
    cases hl
    refine .intro ⟨trivial, trivial, trivial⟩ fun p hp => ?_
    rcases List.mem_cons.1 hp with rfl | hp
    · exact hx
    · obtain ⟨e, rfl, rfl⟩ := Phrase.mem_ofOption.1 hp
      exact hy e rfl
  refine ensures_behind (fun mid hnext => ?_) fun _ => ⟨.refl _, by simp⟩
  refine ensures_bind (ensures_yields (ensures_mono (h.expr mid) fun _ _ he hyields =>
    And.intro he hyields)) fun first behind hboth => ?_
  obtain ⟨hfirst, hyields⟩ := hboth
  -- the bound comes first, with its offset behind `OFFSET`
  refine ensures_bind (ensures_accept _) fun taken mid' hoffset => ?_
  rcases hoffset with ⟨rfl, hoffset⟩ | ⟨rfl, rfl, -⟩
  · refine ensures_bind (h.expr mid') fun offset rest ho => ensures_pure ⟨?_, hwf _ _
      hfirst.wellFormed fun e he => by cases he; exact ho.wellFormed⟩
    refine (hnext.passes_keyword.trans (hfirst.passes.trans
      (hoffset.passes_keyword.trans ho.passes))).cast ?_
    simp [LimitClause.pieces, Expr.symbols]
  -- the offset comes first, and is written behind the bound: no plain text has it so
  refine ensures_bind (ensures_accept _) fun taken mid'' hcomma => ?_
  rcases hcomma with ⟨rfl, hcomma⟩ | ⟨rfl, rfl, -⟩
  · refine ensures_bind (h.expr mid'') fun bound rest hbound => ensures_pure ⟨?_, hwf _ _
      hbound.wellFormed fun e he => by cases he; exact hfirst.wellFormed⟩
    have hpass := hnext.passes_keyword.trans (hfirst.passes.trans
      ((hcomma.passes (by simp [Terminal.kind])).trans hbound.passes))
    obtain ⟨s, rfl, hs⟩ := hnext
    exact hpass.of_not_plain fun hplain =>
      hplain.limits s mid List.suffix_rfl hs room first _ hyields hcomma.kindAhead
  · refine ensures_pure ⟨?_, hwf _ _ hfirst.wellFormed (by simp)⟩
    refine (hnext.passes_keyword.trans hfirst.passes).cast ?_
    simp [LimitClause.pieces, Expr.symbols]

/-! ## Queries -/

theorem ensures_distinct : Ensures room distinct input fun _ rest => Passes input [] rest := by
  refine ensures_bind (ensures_accept _) fun taken mid hdistinct => ?_
  rcases hdistinct with ⟨rfl, hnext⟩ | ⟨rfl, rfl, -⟩
  · exact ensures_pure hnext.passes_keyword
  refine ensures_bind (ensures_accept _) fun taken rest hall => ensures_pure ?_
  rcases hall with ⟨-, hnext⟩ | ⟨-, rfl, -⟩
  · exact hnext.passes_keyword
  · exact .refl _

/-- Nothing is taken where no query is added. -/
theorem ensures_refuseCompound : Ensures room refuseCompound input fun _ rest => rest = input := by
  refine ensures_kind_bind ?_
  split
  · exact ensures_unsupported
  · exact ensures_unsupported
  · exact ensures_unsupported
  · exact ensures_pure rfl

/-- The payload of a query clause by clause, each with what it is written with. -/
theorem ensures_select (h : Sound room) : Ensures room select input fun q rest =>
    Passes input (payload (Pieces.symbols q.pieces)) rest ∧ q.WellFormed Phrase.Parsed := by
  refine ensures_isAt_bind ?_
  split
  · exact ensures_unsupported
  refine ensures_bind (ensures_expect _) fun _ mid₁ hselect => ?_
  refine ensures_bind ensures_distinct fun distinct mid₂ hdistinct => ?_
  refine ensures_bind (ensures_commaSeparated (w := ResultColumn.pieces)
    (G := fun c => (Phrase.column c).WellFormed Phrase.Parsed)
    fun mid => h.goal (.rule .resultColumn) mid) fun columns mid₃ ⟨hne, hcolumns, hcolumnsWf⟩ => ?_
  refine ensures_bind (ensures_sources h) fun sources mid₄ hsources => ?_
  refine ensures_bind (h.behind .WHERE mid₄) fun filter mid₅ hfilter => ?_
  refine ensures_bind (ensures_grouping h) ?_
  rintro ⟨groupBy, having⟩ mid₆ ⟨hgroups, hgroupBy, hhaving, hdemand⟩
  refine ensures_bind ensures_refuseCompound fun _ _ hsame => hsame ▸ ?_
  refine ensures_bind (ensures_listBehind (w := OrderingTerm.pieces)
    (G := fun t => (Phrase.term t).WellFormed Phrase.Parsed) [.ORDER, .BY]
    fun mid => h.goal (.rule .orderingTerm) mid) fun orderBy mid₇ horder => ?_
  refine ensures_bind (ensures_limit h) fun limit rest hlimit => ?_
  refine ensures_bind ensures_refuseCompound fun _ _ hsame => hsame ▸ ensures_pure ⟨?_, ?_⟩
  · have hpass := hselect.passes_keyword.trans (hdistinct.trans (hcolumns.trans (hsources.trans
      (hfilter.1.trans (hgroups.trans (horder.1.trans hlimit.1))))))
    refine hpass.cast ?_
    -- the clauses are written in the order in which they were read
    have hsymbols := Select.symbols_pieces
      ⟨distinct, columns, sources, filter, groupBy, having, orderBy, limit⟩ []
    rw [List.append_nil] at hsymbols
    rw [hsymbols]
    simp
  · refine .intro ⟨⟨hne, hdemand⟩, trivial, trivial⟩ fun p hp => ?_
    simp only [Phrase.parts, List.mem_append, Phrase.mem_ofOption, List.mem_map,
      Option.mem_toList] at hp
    rcases hp with ((((⟨c, hc, rfl⟩ | ⟨x, rfl, rfl⟩) | ⟨x, hx, rfl⟩) | ⟨x, rfl, rfl⟩) |
      ⟨t, ht, rfl⟩) | ⟨l, hl, rfl⟩
    · exact hcolumnsWf c hc
    · exact hfilter.2 x rfl
    · exact hgroupBy x hx
    · exact hhaving x rfl
    · exact horder.2 t ht
    · exact hlimit.2 l hl

end Grammar

end SqlGrammar
