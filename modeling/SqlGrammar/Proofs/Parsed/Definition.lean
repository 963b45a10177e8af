import SqlGrammar.Proofs.Parsed.Query

/-!
# What table definitions are read from

Types, columns, keys, references and constraints are written with the payload that was taken for
them. Conflict clauses, the actions of references and the directions of keys consist of keywords,
which have none.
-/

set_option autoImplicit false

namespace SqlGrammar

open Lexer SqlGrammar.Parser Grammar

/-- The numbers of a type are written behind its name. -/
theorem TypeName.payload_pieces (type : TypeName) (h : type.scale.isSome = true →
    type.length.isSome = true) : payload (Pieces.symbols type.pieces) =
      .identifier type.name :: (payload (Pieces.symbols
        ((type.length.map SignedNumber.pieces).getD [])) ++
          payload (Pieces.symbols ((type.scale.map fun n => .comma :: n.pieces).getD []))) := by
  obtain ⟨name, length, scale⟩ := type
  cases length with
  | none =>
    cases scale with
    | none => rfl
    | some scale => cases h rfl
  | some length => cases scale <;> simp [pieces]

namespace Grammar

variable {room : Nat} {input : List Symbol}

/-! ## Numbers and types -/

/-- An optional sign has been taken, or nothing. -/
theorem ensures_sign : Ensures room sign input fun sign mid =>
    (sign = "" ∧ mid = input) ∨ (sign = "-" ∧ Next input (.operator .minus) mid) ∨
      (sign = "+" ∧ Next input (.operator .plus) mid) := by
  refine ensures_bind (ensures_accept _) fun taken mid hminus => ?_
  rcases hminus with ⟨rfl, hnext⟩ | ⟨rfl, rfl, -⟩
  · exact ensures_pure (.inr (.inl ⟨rfl, hnext⟩))
  refine ensures_bind (ensures_accept _) fun taken mid hplus => ?_
  rcases hplus with ⟨rfl, hnext⟩ | ⟨rfl, rfl, -⟩
  · exact ensures_pure (.inr (.inr ⟨rfl, hnext⟩))
  · exact ensures_pure (.inl ⟨rfl, rfl⟩)

/-- A number that was parsed has `WellMade`, and its text is what `Passes`. -/
theorem ensures_signedNumber : Ensures room signedNumber input fun number rest =>
    Passes input (payload (Pieces.symbols number.pieces)) rest ∧ number.WellMade := by
  refine ensures_bind ensures_sign fun sign mid hsign => ?_
  refine ensures_of_valid fun hvalid => ensures_kind_bind ?_
  split
  · next text hkind =>
    refine ensures_bind (ensures_advance_next hkind (by simp)) fun _ rest hnext => ensures_pure ?_
    obtain ⟨s, hs, hnumber⟩ := hnext.mem
    have htext : IsToken (.number text) text := (hvalid s hs).number text hnumber
    have hpass := hnext.passes (by simp)
    -- the number is written with the sign that was read, or with none
    rcases hsign with ⟨rfl, rfl⟩ | ⟨rfl, hsign⟩ | ⟨rfl, hsign⟩
    · refine ⟨hpass.cast ?_, "", by simp, text, rfl, htext⟩
      rw [SignedNumber.symbols_bare htext]
      rfl
    · refine ⟨((hsign.passes (by simp)).trans hpass).cast ?_, "-", by simp, text, rfl, htext⟩
      rw [SignedNumber.symbols_minus htext]
      rfl
    · refine ⟨((hsign.passes (by simp)).trans hpass).cast ?_, "+", by simp, text, rfl, htext⟩
      rw [SignedNumber.symbols_plus htext]
      rfl
  · exact ensures_unexpected

/-- The numbers of a type, with the comma between them as payload. -/
theorem ensures_typeNumbers (h : Sound room) : Ensures room typeNumbers input fun numbers rest =>
    Passes input (payload (Pieces.symbols numbers.1.pieces) ++
      payload (Pieces.symbols ((numbers.2.map fun n => .comma :: n.pieces).getD []))) rest ∧
      numbers.1.WellMade ∧ ∀ n ∈ numbers.2, n.WellMade := by
  refine ensures_bind (h.goal (.rule .signedNumber) input) fun length mid hlength => ?_
  refine ensures_bind (R := fun scale behind => Passes mid (payload (Pieces.symbols
      ((scale.map fun n => .comma :: SignedNumber.pieces n).getD []))) behind ∧
        ∀ n ∈ scale, n.WellMade)
    (ensures_behind (fun mid' hcomma => ?_) fun _ => ⟨.refl _, nofun⟩) fun scale behind hscale => ?_
  · refine ensures_mono (h.goal (.rule .signedNumber) mid') fun number rest hnumber => ⟨?_, ?_⟩
    · refine ((hcomma.passes (by simp [Terminal.kind])).trans hnumber.1).cast ?_
      simp [Terminal.kind, Rule.pieces]
    · rintro n hn
      cases hn
      exact hnumber.2
  · refine ensures_bind (ensures_expect _) fun _ rest hclose =>
      ensures_pure ⟨?_, hlength.2, hscale.2⟩
    refine (hlength.1.trans (hscale.1.trans (hclose.passes (by simp [Terminal.kind])))).cast ?_
    simp [Terminal.kind, Rule.pieces]

/-- Further words of a type are taken as far as they go. -/
theorem ensures_words : Ensures room (many identifier?) input fun _ rest =>
    ∃ kinds, Passes input kinds rest ∧
      ((kindAhead input 0).isIdentifier = false → rest = input ∧ kinds = []) := by
  refine ensures_many ⟨[], .refl _, fun _ => ⟨rfl, rfl⟩⟩ fun _ mid ⟨kinds, hpass, hsame⟩ => ?_
  refine ensures_mono ensures_identifier? fun found rest hfound => ?_
  rcases hfound with ⟨own, rfl, hnext⟩ | ⟨rfl, rfl, -⟩
  · refine ⟨nofun, fun _ _ => ⟨_, hpass.trans hnext.passes_name, fun hnone => ?_⟩⟩
    rw [← (hsame hnone).1, hnext.kindAhead] at hnone
    cases hnone
  · exact ⟨fun _ => rfl, nofun⟩

/-- A type is `Parsed`: its payload is as written, unless it has more than one word. -/
theorem ensures_typeName (h : Sound room) : Ensures room typeName input fun type rest =>
    type.Parsed input rest := by
  refine ensures_bind ensures_identifier fun name mid hname => ?_
  refine ensures_bind ensures_words fun words mid' ⟨kinds, hwords, hsame⟩ => ?_
  -- whether the type has further words shows behind its first one
  have hsecond : kindAhead input 1 = kindAhead mid 0 := by
    obtain ⟨s, rfl, -⟩ := hname
    rfl
  have hfirst : (kindAhead input 0).isIdentifier = true := by rw [hname.kindAhead]; rfl
  refine ensures_bind (R := fun numbers rest =>
      ∃ length scale, numbers = length.map (·, scale) ∧
        Passes mid' (payload (Pieces.symbols ((length.map SignedNumber.pieces).getD [])) ++
          payload (Pieces.symbols ((scale.map fun n => .comma :: SignedNumber.pieces n).getD [])))
          rest ∧
        (∀ n ∈ length, n.WellMade) ∧ ∀ n ∈ scale, n.WellMade ∧ length.isSome = true)
    (ensures_behind (fun behind hopen => ?_) fun _ =>
      ⟨none, none, rfl, .refl _, nofun, nofun⟩) fun numbers rest hnumbers => ?_
  · refine ensures_mono (ensures_typeNumbers h) fun numbers rest ⟨hpass, hlength, hscale⟩ => ?_
    refine ⟨some numbers.1, numbers.2, rfl, ?_, fun n hn => ?_, fun n hn => ⟨hscale n hn, rfl⟩⟩
    · exact (hopen.passes (by simp [Terminal.kind])).trans hpass
    · cases hn
      exact hlength
  · obtain ⟨length, scale, rfl, hpass, hlength, hscale⟩ := hnumbers
    have htype : ∀ type : TypeName, type = ⟨name, length, scale⟩ → type.Parsed input rest := by
      rintro type rfl
      refine ⟨hfirst, ⟨_, hname.passes_name.trans (hwords.trans hpass), fun hnone => ?_⟩,
        hlength, hscale⟩
      -- a type of a single word has dropped none
      rw [hsecond] at hnone
      rw [(hsame hnone).2, TypeName.payload_pieces]
      · rfl
      · intro hsome
        obtain ⟨n, rfl⟩ := Option.isSome_iff_exists.1 hsome
        exact (hscale n rfl).2
    cases length with
    | none =>
      cases scale with
      | none => exact ensures_pure (htype _ rfl)
      | some scale => cases (hscale scale rfl).2
    | some length => exact ensures_pure (htype _ rfl)

/-! ## Conflicts -/

theorem ensures_conflictResolution :
    Ensures room conflictResolution input fun _ rest => Passes input [] rest := by
  refine ensures_kind_bind ?_
  split
  · next resolution hresolution =>
    obtain ⟨word, hword, -⟩ := Option.bind_eq_some_iff.1 hresolution
    have hkind : kindAhead input 0 = .keyword word := by
      cases hkind : kindAhead input 0 with
      | keyword other =>
        rw [hkind] at hword
        cases hword
        rfl
      | _ =>
        rw [hkind] at hword
        cases hword
    exact ensures_bind (ensures_advance_next hkind (by simp)) fun _ _ hnext =>
      ensures_pure hnext.passes_keyword
  · exact ensures_unexpected

theorem ensures_conflictClause : Ensures room conflictClause input fun resolution rest =>
    Passes input (payload (Pieces.symbols resolution.clausePieces)) rest := by
  refine ensures_bind (ensures_expectAll _) fun _ mid hall => ?_
  refine ensures_mono ensures_conflictResolution fun resolution rest hpass => ?_
  refine ((NextAll.passes [.ON, .CONFLICT] hall).trans hpass).cast ?_
  simp [ConflictResolution.clausePieces]

/-- A clause has words only, and so no payload, whether it is there or not. -/
theorem ensures_conflictClause? (h : Sound room) : Ensures room conflictClause? input
    fun resolution rest =>
      Passes input (payload (Pieces.symbols (conflictPieces resolution))) rest := by
  refine ensures_areAhead_bind ?_
  split
  · exact ensures_map (ensures_mono (h.goal (.rule .conflictClause) input) fun _ _ hr => hr.1)
  · exact ensures_pure (.refl _)

/-! ## References -/

/-- An action has no payload. -/
theorem ensures_referenceAction :
    Ensures room referenceAction input fun _ rest => Passes input [] rest := by
  refine ensures_bind (ensures_accept _) fun taken mid hset => ?_
  rcases hset with ⟨rfl, hset⟩ | ⟨rfl, rfl, -⟩
  · refine ensures_bind (ensures_accept _) fun taken mid' hnull => ?_
    rcases hnull with ⟨rfl, hnull⟩ | ⟨rfl, rfl, -⟩
    · exact ensures_pure (hset.passes_keyword.trans hnull.passes_keyword)
    · exact ensures_bind (ensures_expect _) fun _ _ hdefault =>
        ensures_pure (hset.passes_keyword.trans hdefault.passes_keyword)
  refine ensures_bind (ensures_accept _) fun taken mid hcascade => ?_
  rcases hcascade with ⟨rfl, hnext⟩ | ⟨rfl, rfl, -⟩
  · exact ensures_pure hnext.passes_keyword
  refine ensures_bind (ensures_accept _) fun taken mid hrestrict => ?_
  rcases hrestrict with ⟨rfl, hnext⟩ | ⟨rfl, rfl, -⟩
  · exact ensures_pure hnext.passes_keyword
  refine ensures_bind (ensures_acceptAll _) fun taken mid hnone => ?_
  rcases hnone with ⟨rfl, hall⟩ | ⟨rfl, rfl, -⟩
  · exact ensures_pure (NextAll.passes [.NO, .ACTION] hall)
  · exact ensures_unexpected

/-- A rule that is found has the payload it is written with: the name behind `MATCH`, or none. -/
theorem ensures_referenceRule? : Ensures room referenceRule? input
    (Finds (fun rule => payload (Pieces.symbols (ReferenceRule.pieces rule))) (fun _ => True)
      input) := by
  refine ensures_bind (ensures_acceptAll _) fun taken mid hdelete => ?_
  rcases hdelete with ⟨rfl, hall⟩ | ⟨rfl, rfl, -⟩
  · refine ensures_bind ensures_referenceAction fun action rest haction =>
      ensures_pure (.some ?_ trivial)
    refine ((NextAll.passes [.ON, .DELETE] hall).trans haction).cast ?_
    simp [ReferenceRule.pieces]
  refine ensures_bind (ensures_acceptAll _) fun taken mid hupdate => ?_
  rcases hupdate with ⟨rfl, hall⟩ | ⟨rfl, rfl, -⟩
  · refine ensures_bind ensures_referenceAction fun action rest haction =>
      ensures_pure (.some ?_ trivial)
    refine ((NextAll.passes [.ON, .UPDATE] hall).trans haction).cast ?_
    simp [ReferenceRule.pieces]
  refine ensures_bind (ensures_accept _) fun taken mid hmatch => ?_
  rcases hmatch with ⟨rfl, hnext⟩ | ⟨rfl, rfl, -⟩
  · exact ensures_bind ensures_identifier fun own rest hown =>
      ensures_pure (.some (hnext.passes_keyword.trans hown.passes_name) trivial)
  · exact ensures_pure .none

theorem ensures_initialCheck :
    Ensures room initialCheck input fun _ rest => Passes input [] rest := by
  refine ensures_bind (ensures_accept _) fun taken mid hdeferred => ?_
  rcases hdeferred with ⟨rfl, hnext⟩ | ⟨rfl, rfl, -⟩
  · exact ensures_pure hnext.passes_keyword
  · exact ensures_bind (ensures_expect _) fun _ _ hnext => ensures_pure hnext.passes_keyword

theorem ensures_deferral : Ensures room deferral input fun deferral rest =>
    Passes input (payload (Pieces.symbols deferral.pieces)) rest := by
  refine ensures_bind (ensures_accept _) fun negated mid hnot => ?_
  have hpass : Passes input [] mid := by
    rcases hnot with ⟨-, hnext⟩ | ⟨-, rfl, -⟩
    · exact hnext.passes_keyword
    · exact .refl _
  refine ensures_bind (ensures_expect _) fun _ mid' hdeferrable => ?_
  refine ensures_bind (R := fun _ rest => Passes mid' [] rest)
    (ensures_behind (fun behind hnext => ?_) fun _ => .refl _) fun initially rest hinitially => ?_
  · exact ensures_mono ensures_initialCheck fun _ _ hcheck => hnext.passes_keyword.trans hcheck
  · refine ensures_pure ((hpass.trans (hdeferrable.passes_keyword.trans hinitially)).cast ?_)
    simp [Deferral.pieces]

/-- A deferral has no payload. -/
theorem ensures_deferral? : Ensures room deferral? input fun deferral rest =>
    Passes input (payload (Pieces.symbols ((deferral.map Deferral.pieces).getD []))) rest := by
  refine ensures_isAt_bind (ensures_areAhead_bind ?_)
  split
  · exact ensures_map ensures_deferral
  · exact ensures_pure (.refl _)

theorem ensures_identifierList? : Ensures room identifierList? input fun columns rest =>
    Passes input (payload (Pieces.symbols (namesInParens columns))) rest := by
  refine ensures_isAt_bind ?_
  split
  · refine ensures_mono ensures_identifierList fun columns rest ⟨hpass, hne⟩ => ?_
    have hfull : columns.isEmpty = false := by
      cases columns with
      | nil => exact absurd rfl hne
      | cons column columns => rfl
    refine hpass.cast ?_
    simp [namesInParens, hfull]
  · exact ensures_pure (.refl _)

/-- The payload of a reference are its names, with the commas between them. -/
theorem ensures_foreignKey : Ensures room foreignKey input fun key rest =>
    Passes input (payload (Pieces.symbols key.pieces)) rest := by
  refine ensures_bind (ensures_expect _) fun _ mid₁ hreferences => ?_
  refine ensures_bind ensures_identifier fun table mid₂ htable => ?_
  refine ensures_bind ensures_identifierList? fun columns mid₃ hcolumns => ?_
  refine ensures_bind (ensures_many_items fun mid => ensures_referenceRule?)
    fun rules mid₄ hrules => ?_
  refine ensures_bind ensures_deferral? fun deferral rest hdeferral => ensures_pure ?_
  refine (hreferences.passes_keyword.trans (htable.passes_name.trans (hcolumns.trans
    (hrules.1.trans hdeferral)))).cast ?_
  simp [ForeignKey.pieces, Pieces.symbols_flatMap, payload_flatMap]

/-! ## Columns -/

theorem ensures_indexedColumn : Ensures room indexedColumn input fun column rest =>
    Passes input (payload (Pieces.symbols column.pieces)) rest := by
  refine ensures_bind ensures_identifier fun name mid hname => ?_
  refine ensures_bind (R := fun collation mid' => Passes mid
      (payload (Pieces.symbols ((collation.map fun c => [Piece.name c]).getD []))) mid')
    (ensures_behind (fun behind hnext => ?_) fun _ => .refl _) fun collation mid' hcollation => ?_
  · exact ensures_mono ensures_identifier fun own rest hown =>
      hnext.passes_keyword.trans hown.passes_name
  · refine ensures_bind ensures_direction? fun direction rest hdirection => ensures_pure ?_
    refine (hname.passes_name.trans (hcollation.trans hdirection)).cast ?_
    simp [IndexedColumn.pieces]

theorem ensures_indexedColumns (h : Sound room) : Ensures room indexedColumns input
    fun columns rest =>
      Passes input (payload (Pieces.symbols
        (Pieces.commaList (columns.map IndexedColumn.pieces)))) rest ∧ columns ≠ [] := by
  refine ensures_parenthesized fun mid => ?_
  exact ensures_mono (ensures_commaSeparated (w := IndexedColumn.pieces) (G := fun _ => True)
    fun mid => h.goal (.rule .indexedColumn) mid) fun _ _ hs => ⟨hs.2.1, hs.1⟩

theorem ensures_condition (h : Sound room) : Ensures room (parenthesized Rule.expr.parse) input
    fun e rest => Passes input (payload e.symbols) rest ∧ e.WellFormed Phrase.Parsed :=
  ensures_parenthesized fun mid =>
    ensures_mono (h.expr mid) fun _ _ he => ⟨he.passes, he.wellFormed⟩

/-- A default that starts with a number is not read as a literal. -/
theorem ensures_defaultValue (h : Sound room) : Ensures room defaultValue input fun value rest =>
    Passes input (payload (Pieces.symbols value.pieces)) rest ∧
      value.WellFormed Phrase.Parsed := by
  refine ensures_look_bind (ensures_look_bind ?_)
  split
  · exact ensures_bind (h.goal (.rule .signedNumber) input) fun number rest hnumber =>
      ensures_pure ⟨hnumber.1, hnumber.2⟩
  · next hstart =>
    refine ensures_isAt_bind ?_
    split
    · refine ensures_bind (ensures_condition h) fun e rest he => ensures_pure ⟨he.1.cast ?_, he.2⟩
      simp [DefaultValue.pieces, Expr.symbols]
    · -- a literal that is a number would have been a signed number
      refine ensures_bind (h.goal (.rule .literal) input) fun value rest hvalue =>
        ensures_pure ⟨hvalue.1, ?_⟩
      rintro text rfl
      have hkind : kindAhead input 0 = .number text := by
        have hliteral := hvalue.2.2
        unfold Literal.ofKind? at hliteral
        split at hliteral <;> cases hliteral
        assumption
      rw [hkind] at hstart
      exact hstart rfl

theorem ensures_constraintName? : Ensures room constraintName? input fun name rest =>
    Passes input (payload (Pieces.symbols (constraintNamePieces name))) rest := by
  refine ensures_behind (fun mid hnext => ?_) fun _ => .refl _
  refine ensures_mono ensures_identifier fun own rest hown => ?_
  refine (hnext.passes_keyword.trans hown.passes_name).cast ?_
  simp [constraintNamePieces]

/-- One case for each rule of a column; its expressions are `Phrase.Parsed`. -/
theorem ensures_columnRule (h : Sound room) : Ensures room columnRule input fun rule rest =>
    Passes input (payload (Pieces.symbols rule.pieces)) rest ∧ rule.WellFormed Phrase.Parsed := by
  refine ensures_kind_bind ?_
  split
  -- a primary key
  · refine ensures_bind (ensures_expectAll _) fun _ mid₁ hall => ?_
    refine ensures_bind ensures_direction? fun direction mid₂ hdirection => ?_
    refine ensures_bind (ensures_conflictClause? h) fun onConflict mid₃ hconflict => ?_
    refine ensures_bind (ensures_accept _) fun autoincrement rest hauto =>
      ensures_pure ⟨?_, trivial⟩
    have hflag : Passes mid₃ [] rest := by
      rcases hauto with ⟨-, hnext⟩ | ⟨-, rfl, -⟩
      · exact hnext.passes_keyword
      · exact .refl _
    refine ((NextAll.passes [.PRIMARY, .KEY] hall).trans
      (hdirection.trans (hconflict.trans hflag))).cast ?_
    simp [ColumnRule.pieces]
  -- a column that is not null
  · refine ensures_bind (ensures_expectAll _) fun _ mid hall => ?_
    refine ensures_bind (ensures_conflictClause? h) fun onConflict rest hconflict =>
      ensures_pure ⟨?_, trivial⟩
    refine ((NextAll.passes [.NOT, .NULL] hall).trans hconflict).cast ?_
    simp [ColumnRule.pieces]
  -- uniqueness
  · next hkind =>
    refine ensures_bind (ensures_advance_next hkind (by simp)) fun _ mid hnext => ?_
    exact ensures_bind (ensures_conflictClause? h) fun onConflict rest hconflict =>
      ensures_pure ⟨hnext.passes_keyword.trans hconflict, trivial⟩
  -- a check
  · next hkind =>
    refine ensures_bind (ensures_advance_next hkind (by simp)) fun _ mid hnext => ?_
    refine ensures_bind (ensures_condition h) fun e rest he => ensures_pure ⟨?_, he.2⟩
    refine (hnext.passes_keyword.trans he.1).cast ?_
    simp [ColumnRule.pieces, Expr.symbols]
  -- a default
  · next hkind =>
    refine ensures_bind (ensures_advance_next hkind (by simp)) fun _ mid hnext => ?_
    exact ensures_bind (ensures_defaultValue h) fun value rest hvalue =>
      ensures_pure ⟨hnext.passes_keyword.trans hvalue.1, hvalue.2⟩
  -- a collation
  · next hkind =>
    refine ensures_bind (ensures_advance_next hkind (by simp)) fun _ mid hnext => ?_
    exact ensures_bind ensures_identifier fun collation rest hown =>
      ensures_pure ⟨hnext.passes_keyword.trans hown.passes_name, trivial⟩
  · exact ensures_bind (h.goal (.rule .foreignKey) input) fun key rest hkey =>
      ensures_pure ⟨hkey.1, trivial⟩
  · exact ensures_unexpected

/-- The name of a constraint is payload before that of the rule. -/
theorem ensures_columnConstraint (h : Sound room) : Ensures room columnConstraint input
    fun c rest => Passes input (payload (Pieces.symbols c.pieces)) rest ∧
      c.rule.WellFormed Phrase.Parsed := by
  refine ensures_bind ensures_constraintName? fun name mid hname => ?_
  refine ensures_bind (ensures_columnRule h) fun rule rest hrule => ensures_pure ⟨?_, hrule.2⟩
  refine (hname.trans hrule.1).cast ?_
  simp [ColumnConstraint.pieces]

theorem ensures_columnConstraint? (h : Sound room) : Ensures room columnConstraint? input
    (Finds (fun c => payload (Pieces.symbols (ColumnConstraint.pieces c)))
      (fun c => c.rule.WellFormed Phrase.Parsed) input) := by
  refine ensures_kind_bind ?_
  split
  · exact ensures_map (ensures_mono (h.goal (.rule .columnConstraint) input) fun _ _ hc =>
      .some hc.1 hc.2)
  · exact ensures_pure .none

/-- The type of a column stands behind the name of the column. -/
theorem ensures_columnDefinition (h : Sound room) : Ensures room columnDefinition input
    fun column rest => Passes input (payload (Pieces.symbols column.pieces)) rest ∧
      column.WellFormed Phrase.Parsed := by
  refine ensures_bind ensures_identifier fun name mid hname => ?_
  refine ensures_bind (R := fun type mid' => Passes input (.identifier name ::
      payload (Pieces.symbols ((type.map TypeName.pieces).getD []))) mid' ∧
        ∀ t ∈ type, t.WellMade) (ensures_kind_bind ?_) fun type mid' htype => ?_
  · split
    · refine ensures_map (ensures_mono (h.goal (.rule .typeName) mid) fun type rest htype => ?_)
      obtain ⟨s, rfl, hs⟩ := hname
      have hidentifier : s.kind.isIdentifier = true := by rw [hs]; rfl
      refine ⟨(TypeName.Parsed.behind htype (.inl hidentifier)).cast ?_, fun t ht => ?_⟩
      · simp [hs]
      · cases ht
        exact htype.wellMade
    · exact ensures_pure ⟨hname.passes_name, nofun⟩
  · refine ensures_bind (ensures_many_items fun mid => ensures_columnConstraint? h)
      fun constraints rest hconstraints => ensures_pure ⟨?_, htype.2, hconstraints.2⟩
    refine (htype.1.trans hconstraints.1).cast ?_
    simp [ColumnDefinition.pieces, Pieces.symbols_flatMap, payload_flatMap]

/-! ## Constraints of a table -/

/-- One case for each rule of a table. -/
theorem ensures_tableRule (h : Sound room) : Ensures room tableRule input fun rule rest =>
    Passes input (payload (Pieces.symbols rule.pieces)) rest ∧ rule.WellFormed Phrase.Parsed := by
  refine ensures_kind_bind ?_
  split
  -- a primary key
  · refine ensures_bind (ensures_expectAll _) fun _ mid₁ hall => ?_
    refine ensures_bind (ensures_indexedColumns h) fun columns mid₂ hcolumns => ?_
    refine ensures_bind (ensures_conflictClause? h) fun onConflict rest hconflict =>
      ensures_pure ⟨?_, hcolumns.2⟩
    refine ((NextAll.passes [.PRIMARY, .KEY] hall).trans (hcolumns.1.trans hconflict)).cast ?_
    simp [TableRule.pieces]
  -- uniqueness
  · next hkind =>
    refine ensures_bind (ensures_advance_next hkind (by simp)) fun _ mid₁ hnext => ?_
    refine ensures_bind (ensures_indexedColumns h) fun columns mid₂ hcolumns => ?_
    refine ensures_bind (ensures_conflictClause? h) fun onConflict rest hconflict =>
      ensures_pure ⟨?_, hcolumns.2⟩
    refine (hnext.passes_keyword.trans (hcolumns.1.trans hconflict)).cast ?_
    simp [TableRule.pieces]
  -- a check
  · next hkind =>
    refine ensures_bind (ensures_advance_next hkind (by simp)) fun _ mid hnext => ?_
    refine ensures_bind (ensures_condition h) fun e rest he => ensures_pure ⟨?_, he.2⟩
    refine (hnext.passes_keyword.trans he.1).cast ?_
    simp [TableRule.pieces, Expr.symbols]
  -- a reference of columns
  · refine ensures_bind (ensures_expectAll _) fun _ mid₁ hall => ?_
    refine ensures_bind ensures_identifierList fun columns mid₂ hcolumns => ?_
    refine ensures_bind (h.goal (.rule .foreignKey) mid₂) fun key rest hkey =>
      ensures_pure ⟨?_, hcolumns.2⟩
    refine ((NextAll.passes [.FOREIGN, .KEY] hall).trans (hcolumns.1.trans hkey.1)).cast ?_
    simp [TableRule.pieces, Rule.pieces]
  · exact ensures_unexpected

theorem ensures_tableConstraint (h : Sound room) : Ensures room tableConstraint input
    fun c rest => Passes input (payload (Pieces.symbols c.pieces)) rest ∧
      c.rule.WellFormed Phrase.Parsed := by
  refine ensures_bind ensures_constraintName? fun name mid hname => ?_
  refine ensures_bind (ensures_tableRule h) fun rule rest hrule => ensures_pure ⟨?_, hrule.2⟩
  refine (hname.trans hrule.1).cast ?_
  simp [TableConstraint.pieces]

end Grammar

end SqlGrammar
