import SqlGrammar.Proofs.Parsed.Goal

/-!
# What primary expressions are read from

An expression without an operator outside of parentheses is written with the payload that was taken
for it. The name of a call is the one place where this depends on how a text is written: a quoted
name that is spelled like a keyword is written without its quotes.
-/

set_option autoImplicit false

namespace SqlGrammar

open Lexer SqlGrammar.Parser Grammar

/-! ## Literals -/

/-- A literal is written with the payload of the token that it stands for. -/
theorem Literal.payload_pieces {kind : TokenKind} {value : Literal}
    (h : ofKind? kind = some value)
    (hnumber : ∀ text, kind = .number text → IsToken (.number text) text) :
    payload (Pieces.symbols value.pieces) = kind.payload ∧ value.WellMade := by
  unfold ofKind? at h
  split at h
  · next text =>
    cases h
    have htext := hnumber text rfl
    refine ⟨?_, htext⟩
    simp [pieces, Piece.symbols, textSymbols_number htext]
  · cases h; exact ⟨rfl, trivial⟩
  · cases h; exact ⟨rfl, trivial⟩
  · cases h; exact ⟨rfl, trivial⟩
  · cases h; exact ⟨rfl, trivial⟩
  · cases h; exact ⟨rfl, trivial⟩
  · cases h; exact ⟨rfl, trivial⟩
  · cases h

theorem Literal.ne_of_ofKind? {kind : TokenKind} {value : Literal} (h : ofKind? kind = some value) :
    kind ≠ .eof ∧ kind ≠ .operator .semicolon := by
  constructor <;> rintro rfl <;> cases h

/-! ## Calls -/

/-- The symbol that calls a function is written again for the name of the call, unless it is a
quoted name that is spelled like a keyword. -/
theorem payload_calleePieces {s : Symbol} {name : String} (hvalid : s.Valid)
    (h : s.callee? = some name)
    (hplain : ∀ own word, s.kind = .identifier own → Keyword.ofText? own = some word →
      word.namesFunction = false) :
    payload (Pieces.symbols (calleePieces name)) = s.kind.payload := by
  rcases hvalid.callee name h with hname | ⟨word, hword, hfunction, htext⟩
  · have hkeyword : ((Keyword.ofText? name).map Keyword.namesFunction).getD false = false := by
      cases htext : Keyword.ofText? name with
      | none => rfl
      | some word => exact hplain name word hname htext
    rw [calleePieces, hkeyword, hname]
    simp
  · have hkeyword : ((Keyword.ofText? name).map Keyword.namesFunction).getD false = true := by
      rw [htext]
      exact hfunction
    rw [calleePieces, if_pos hkeyword, hword]
    simp [Piece.symbols, textSymbols_of_alone (alone_spelled htext), Symbol.spelled]

namespace Grammar

variable {room : Nat} {input : List Symbol}

/-- The token of a literal is taken. -/
theorem ensures_advance_literal {value : Literal}
    (h : Literal.ofKind? (kindAhead input 0) = some value) :
    Ensures room advance input fun _ rest =>
      Passes input (payload (Pieces.symbols value.pieces)) rest ∧ value.WellMade := by
  obtain ⟨hne, hsemicolon⟩ := Literal.ne_of_ofKind? h
  refine ensures_of_valid fun hvalid => ?_
  refine ensures_mono (ensures_advance_next rfl hne) fun _ rest hnext => ?_
  obtain ⟨s, hs, hkind⟩ := hnext.mem
  obtain ⟨hpayload, hmade⟩ := Literal.payload_pieces h fun text htext =>
    (hvalid s hs).number text (hkind.trans htext)
  exact ⟨(hnext.passes hsemicolon).cast hpayload.symm, hmade⟩

theorem ensures_literal : Ensures room literal input fun value rest =>
    Passes input (payload (Pieces.symbols value.pieces)) rest ∧ value.WellMade ∧
      Literal.ofKind? (kindAhead input 0) = some value := by
  refine ensures_kind_bind ?_
  split
  · next value hvalue =>
    exact ensures_bind (ensures_advance_literal hvalue) fun _ _ h =>
      ensures_pure ⟨h.1, h.2, hvalue⟩
  · exact ensures_unexpected

/-- Expressions are the parts of a list of them. -/
theorem wellFormed_of_mem_map {es : List Expr} (h : ∀ e ∈ es, e.WellFormed Phrase.Parsed) :
    ∀ p ∈ es.map Phrase.expr, p.WellFormed Phrase.Parsed := by
  simpa [Expr.WellFormed] using h

theorem ensures_callArgs (h : Sound room) : Ensures room callArgs input fun a rest =>
    Passes input (payload (Pieces.symbols a.pieces)) rest ∧
      (Phrase.args a).WellFormed Phrase.Parsed := by
  refine ensures_bind (ensures_accept _) fun taken mid hstar => ?_
  rcases hstar with ⟨rfl, hnext⟩ | ⟨rfl, rfl, -⟩
  · exact ensures_pure ⟨hnext.passes (by simp [Terminal.kind]),
      .leaf trivial ⟨trivial, trivial⟩ rfl⟩
  refine ensures_isAt_bind ?_
  split
  -- no arguments
  · exact ensures_pure ⟨.refl _, .leaf (by simp [Phrase.WellMade]) ⟨trivial, trivial⟩ rfl⟩
  refine ensures_bind (ensures_accept _) fun distinct mid hdistinct => ?_
  refine ensures_bind (h.exprs mid) fun es rest hlist => ?_
  obtain ⟨hne, hpass, hes⟩ := hlist
  refine ensures_pure ⟨?_, ?_⟩
  · rw [CallArgs.pieces, Pieces.symbols_append, payload_append, Pieces.payload_flag,
      exprsPieces_eq]
    rcases hdistinct with ⟨-, hnext⟩ | ⟨-, rfl, -⟩
    · exact hnext.passes_keyword.trans hpass
    · exact hpass
  · exact .intro ⟨fun _ => hne, trivial, trivial⟩ (wellFormed_of_mem_map hes)

theorem ensures_functionCall (h : Sound room) : Ensures room functionCall input fun c rest =>
    Passes input (payload (Pieces.symbols c.pieces)) rest ∧
      (Phrase.call c).WellFormed Phrase.Parsed := by
  refine ensures_of_valid fun hvalid => ?_
  refine ensures_bind (R := fun found mid => found = input.head?.bind Symbol.callee? ∧ mid = input)
    (ensures_callee ⟨rfl, rfl⟩) ?_
  rintro found mid ⟨hfound, rfl⟩
  split
  · next name =>
    cases mid with
    | nil => cases hfound
    | cons s ss =>
      have hs := hvalid s (by simp)
      have hname : s.callee? = some name := hfound.symm
      have hsemicolon : s.kind ≠ .operator .semicolon := by
        rcases hs.callee name hname with hkind | ⟨word, hkind, -⟩ <;> simp [hkind]
      -- the name is written again only in a plain text, where no quoted name spells a keyword
      have hcallee : Passes (s :: ss) (payload (Pieces.symbols (calleePieces name))) ss := by
        refine ⟨[s], rfl, fun hplain => ?_, by simpa using hsemicolon⟩
        rw [payload_calleePieces hs hname (hplain.names s (by simp))]
        simp
      refine ensures_bind (ensures_advance_next rfl hs.ne_eof) fun _ mid hnext => ?_
      obtain ⟨s', hcons, -⟩ := hnext
      obtain ⟨rfl, rfl⟩ := List.cons.inj hcons
      refine ensures_bind (ensures_parenthesized fun mid => ensures_callArgs h) fun a rest ha => ?_
      have hwf : ∀ name, (Phrase.call ⟨name, a⟩).WellFormed Phrase.Parsed :=
        fun name => .single trivial ⟨trivial, trivial⟩ rfl ha.2
      refine ensures_pure ⟨(hcallee.trans ha.1).cast ?_, hwf _⟩
      simp [FunctionCall.pieces]
  · exact ensures_unexpected

/-! ## Columns, casts and cases -/

theorem ensures_columnName : Ensures room columnName input fun e rest =>
    e.Parsed input rest ∧ e.power = atomPower := by
  have hdot : (Terminal.operator .dot).kind ≠ .operator .semicolon := by decide
  refine ensures_bind ensures_identifier fun first mid hfirst => ?_
  refine ensures_bind (ensures_accept _) fun taken mid' htaken => ?_
  rcases htaken with ⟨rfl, hpoint⟩ | ⟨rfl, rfl, -⟩
  · refine ensures_bind ensures_identifier fun second mid hsecond => ?_
    have hpass := hfirst.passes_name.trans ((hpoint.passes hdot).trans hsecond.passes_name)
    refine ensures_bind (ensures_accept _) fun taken mid' htaken => ?_
    rcases htaken with ⟨rfl, hpoint⟩ | ⟨rfl, rfl, -⟩
    · refine ensures_bind ensures_identifier fun own rest hown => ensures_pure ⟨⟨?_, ?_⟩, rfl⟩
      · exact hpass.trans ((hpoint.passes hdot).trans hown.passes_name)
      · exact .intro ⟨fun _ => rfl, trivial, trivial⟩ nofun
    · exact ensures_pure ⟨⟨hpass, .intro ⟨nofun, trivial, trivial⟩ nofun⟩, rfl⟩
  · exact ensures_pure ⟨⟨hfirst.passes_name, .intro ⟨nofun, trivial, trivial⟩ nofun⟩, rfl⟩

theorem ensures_castBody (h : Sound room) : Ensures room castBody input fun e rest =>
    Passes input (payload e.symbols) rest ∧ e.WellFormed Phrase.Parsed ∧ e.power = atomPower := by
  refine ensures_bind (h.expr input) fun subject mid hsubject => ?_
  refine ensures_bind (ensures_expect _) fun _ mid' has => ?_
  refine ensures_bind (h.goal (.rule .typeName) mid') fun type rest htype => ?_
  obtain ⟨s, rfl, hs⟩ := has
  have hpass := hsubject.passes.trans (TypeName.Parsed.behind htype (.inr hs))
  refine ensures_pure ⟨hpass.cast ?_,
    .single htype.wellMade ⟨trivial, trivial⟩ rfl hsubject.wellFormed, rfl⟩
  simp [Expr.symbols, Expr.pieces, hs, Terminal.kind]

theorem ensures_whenBranch (h : Sound room) : Ensures room whenBranch input fun b rest =>
    Passes input (payload (Pieces.symbols b.pieces)) rest ∧
      (Phrase.branch b).WellFormed Phrase.Parsed := by
  refine ensures_bind (h.expr input) fun condition mid hcondition => ?_
  refine ensures_bind (ensures_expect _) fun _ mid' hthen => ?_
  refine ensures_bind (h.expr mid') fun result rest hresult => ensures_pure ⟨?_, ?_⟩
  · refine (hcondition.passes.trans (hthen.passes_keyword.trans hresult.passes)).cast ?_
    simp [WhenBranch.pieces, Expr.symbols]
  · refine .intro ⟨trivial, trivial, trivial⟩ fun p hp => ?_
    simp only [Phrase.parts, List.mem_cons, List.not_mem_nil, or_false] at hp
    rcases hp with rfl | rfl
    · exact hcondition.wellFormed
    · exact hresult.wellFormed

/-- The operand of a case, unless a branch comes first. -/
theorem ensures_caseOperand {α : Type} {f : Option Expr → Production α}
    {Q : α → List Symbol → Prop} (h : Sound room)
    (hf : ∀ operand mid,
      Passes input (payload (Pieces.symbols ((operand.map Expr.pieces).getD []))) mid →
        (∀ e ∈ operand, e.WellFormed Phrase.Parsed) → Ensures room (f operand) mid Q) :
    Ensures room (isAt Keyword.WHEN >>= fun here =>
      if here then pure none >>= f else (some <$> Rule.expr.parse) >>= f) input Q := by
  refine ensures_isAt_bind ?_
  split
  · refine ensures_bind (R := fun operand mid => operand = none ∧ mid = input)
      (ensures_pure ⟨rfl, rfl⟩) ?_
    rintro operand mid ⟨rfl, rfl⟩
    exact hf none mid (.refl _) nofun
  · refine ensures_bind (ensures_map (Q := fun operand mid =>
      Passes input (payload (Pieces.symbols ((operand.map Expr.pieces).getD []))) mid ∧
        ∀ e ∈ operand, e.WellFormed Phrase.Parsed) ?_)
      fun operand mid ho => hf operand mid ho.1 ho.2
    refine ensures_mono (h.expr input) fun e mid he => ⟨he.passes, fun x hx => ?_⟩
    cases hx
    exact he.wellFormed

theorem ensures_caseExpr (h : Sound room) : Ensures room caseExpr input fun e rest =>
    e.Parsed input rest ∧ e.power = atomPower := by
  refine ensures_bind (ensures_expect _) fun _ mid₁ hcase => ?_
  refine ensures_caseOperand h fun operand mid₂ hoperand hwf => ?_
  refine ensures_bind (ensures_expect _) fun _ mid₃ hwhen => ?_
  refine ensures_bind (ensures_whenBranch h) fun first mid₄ hfirst => ?_
  refine ensures_bind (ensures_many_items
    (k := fun b => payload (Pieces.symbols (WhenBranch.pieces b)))
    (G := fun b => (Phrase.branch b).WellFormed Phrase.Parsed)
    fun mid => ensures_behind (fun mid' hnext => ?_) fun _ => .none)
    fun others mid₅ hothers => ?_
  · exact ensures_mono (ensures_whenBranch h) fun b rest hb =>
      .some (hnext.passes_keyword.trans hb.1) hb.2
  refine ensures_bind (h.behind .ELSE mid₅) fun otherwise mid₆ hotherwise => ?_
  refine ensures_bind (ensures_expect _) fun _ rest hend => ensures_pure ⟨⟨?_, ?_⟩, rfl⟩
  · have hpass := hcase.passes_keyword.trans (hoperand.trans (hwhen.passes_keyword.trans
      (hfirst.1.trans (hothers.1.trans (hotherwise.1.trans hend.passes_keyword)))))
    -- the first branch and the others are written one after the other
    refine hpass.cast ?_
    simp [Expr.symbols, Expr.pieces, Pieces.symbols_flatMap, payload_flatMap]
  · refine .intro ⟨by simp [Phrase.WellMade], trivial, trivial⟩ fun p hp => ?_
    simp only [Phrase.parts, List.mem_append, Phrase.mem_ofOption, List.mem_map] at hp
    rcases hp with (⟨x, rfl, rfl⟩ | ⟨b, hb, rfl⟩) | ⟨x, rfl, rfl⟩
    · exact hwf x rfl
    · rcases List.mem_cons.1 hb with rfl | hb
      · exact hfirst.2
      · exact hothers.2 b hb
    · exact hotherwise.2 x rfl

/-! ## All primary expressions -/

/-- Where a query starts is decided without taking anything. -/
theorem ensures_startsQuery_bind {α : Type} {f : Bool → Production α}
    {Q : α → List Symbol → Prop} (h : ∀ here, Ensures room (f here) input Q) :
    Ensures room (startsQuery >>= f) input Q := by
  refine ensures_bind (R := fun _ mid => mid = input) (ensures_isAt_bind ?_)
    fun here _ hmid => hmid ▸ h here
  split
  · exact ensures_pure rfl
  · exact ensures_look_bind (ensures_pure rfl)

/-- Parentheses around a query or an expression. -/
theorem ensures_parenBody (h : Sound room) : Ensures room (parenthesized parenBody) input
    fun e rest => e.Parsed input rest ∧ e.power = atomPower := by
  refine ensures_mono (ensures_parenthesized (k := fun e => payload e.symbols)
    (G := fun e => e.WellFormed Phrase.Parsed ∧ e.power = atomPower) fun mid => ?_)
    fun e rest he => ⟨⟨he.1, he.2.1⟩, he.2.2⟩
  refine ensures_startsQuery_bind fun here => ?_
  cases here with
  | true =>
    refine ensures_bind (h.select mid) fun q rest hq => ensures_pure ⟨hq.1.cast ?_, ?_, rfl⟩
    · simp [Expr.symbols, Expr.pieces, Select.symbols]
    · exact .single trivial ⟨trivial, trivial⟩ rfl hq.2
  | false =>
    refine ensures_bind (h.expr mid) fun e rest he => ensures_pure ⟨he.passes.cast ?_, ?_, rfl⟩
    · simp [Expr.symbols_paren]
    · exact .single trivial ⟨trivial, trivial⟩ rfl he.wellFormed

/-- A primary expression holds no open operand. -/
theorem ensures_primary (h : Sound room) : Ensures room primary input fun e rest =>
    e.Parsed input rest ∧ e.power = atomPower := by
  refine ensures_kind_bind ?_
  split
  -- a literal
  · next value hvalue =>
    refine ensures_bind (ensures_advance_literal hvalue) fun _ rest hv => ?_
    exact ensures_pure ⟨⟨hv.1, .intro ⟨hv.2, trivial, trivial⟩ nofun⟩, rfl⟩
  refine ensures_isNext_bind ?_
  split
  -- a call
  · refine ensures_bind (h.goal (.rule .functionCall) input) fun c rest hc => ?_
    exact ensures_pure ⟨⟨hc.1, .single trivial ⟨trivial, trivial⟩ rfl hc.2⟩, rfl⟩
  split
  -- a parameter
  · next text hkind =>
    refine ensures_of_valid fun hvalid => ?_
    refine ensures_bind (ensures_advance_next hkind (by simp)) fun _ rest hnext => ?_
    obtain ⟨s, hs, hparameter⟩ := hnext.mem
    have htext := (hvalid s hs).parameter text hparameter
    refine ensures_pure ⟨⟨(hnext.passes (by simp)).cast ?_, .intro ⟨htext, trivial, trivial⟩ nofun⟩,
      rfl⟩
    simp [Expr.symbols_parameter htext]
  -- a column
  · exact ensures_columnName
  -- a cast
  · next hkind =>
    refine ensures_bind (ensures_advance_next hkind (by simp)) fun _ mid hnext => ?_
    refine ensures_mono (ensures_parenthesized fun mid => ensures_castBody h) fun e rest he => ?_
    exact ⟨⟨hnext.passes_keyword.trans he.1, he.2.1⟩, he.2.2⟩
  -- a case
  · exact ensures_caseExpr h
  -- the existence of a row
  · next hkind =>
    refine ensures_bind (ensures_advance_next hkind (by simp)) fun _ mid hnext => ?_
    refine ensures_bind (ensures_parenthesized fun mid => h.select mid) fun q rest hq => ?_
    refine ensures_pure ⟨⟨(hnext.passes_keyword.trans hq.1).cast ?_,
      .single trivial ⟨trivial, trivial⟩ rfl hq.2⟩, rfl⟩
    simp [Expr.symbols, Expr.pieces, Select.symbols]
  -- parentheses
  · exact ensures_parenBody h
  · exact ensures_unexpected

end Grammar

end SqlGrammar
