import SqlGrammar.Proofs.Parsed.Primary

/-!
# What operands are read from

The loop over infix operators keeps three things about the expression that it has so far: it can
stand before the operator ahead, it binds strongly enough for its place, and nothing behind it is
drawn into its end. A single step of the loop (`Expr.Extends`) reads one infix form; by induction
the loop ends with an operand as it should be (`ensures_operand`).
-/

set_option autoImplicit false

namespace SqlGrammar

open SqlGrammar.Parser Grammar

/-! ## Forms behind an operand -/

namespace Grammar.InfixForm

/-- The power with which a form takes its left operand. -/
def power : InfixForm → Nat
  | collate => collatePower
  | binary op => op.power
  | like _ | is | isNull | notNull | within | between => equalityPower

/-- The payload of the token that starts a form. -/
def payload : InfixForm → List TokenKind
  | binary op => SqlGrammar.payload (op.terminals.map Terminal.symbol)
  | _ => []

/-- A token that starts a form has the payload of the form. -/
theorem payload_of_ofKind? {kind : TokenKind} {form : InfixForm} (h : ofKind? kind = some form) :
    kind.payload = form.payload ∧ kind ≠ .eof ∧ kind ≠ .operator .semicolon := by
  cases kind with
  | keyword word => cases word <;> cases h <;> exact ⟨rfl, nofun, nofun⟩
  | operator sign => cases sign <;> cases h <;> exact ⟨rfl, nofun, nofun⟩
  | _ => cases h

/-- The power of a token that starts a form is that of the form. -/
theorem power_of_ofKind? {kind : TokenKind} {form : InfixForm} {q : Nat}
    (h : ofKind? kind = some form) (hq : infixPower? kind = some q) : form.power = q := by
  cases kind with
  | keyword word => cases word <;> cases h <;> cases hq <;> rfl
  | operator sign => cases sign <;> cases h <;> cases hq <;> rfl
  | _ => cases h

/-- What a `NOT` may stand before has the power of the `NOT`. -/
theorem power_of_followsInfixNot {kind : TokenKind} {form : InfixForm}
    (h : ofKind? kind = some form) (hnot : followsInfixNot kind = true) :
    form.power = equalityPower := by
  cases kind with
  | keyword word => cases word <;> cases h <;> first | rfl | cases hnot
  | _ => cases hnot

/-- `IS` between two operands is no form of a single token. -/
theorem binary_of_ofKind? {kind : TokenKind} {op : BinaryOp} (h : ofKind? kind = some (binary op)) :
    op ≠ .is ∧ op ≠ .isNot := by
  cases kind with
  | keyword word => cases word <;> cases h <;> exact ⟨nofun, nofun⟩
  | operator sign => cases sign <;> cases h <;> exact ⟨nofun, nofun⟩
  | _ => cases h

end Grammar.InfixForm

/-! ## What has been read so far -/

namespace Expr

section Atoms

variable {e : Expr}

/-- Nothing but an operator leaves an expression open at its end. -/
theorem tailPower_of_atom (h : e.power = atomPower) : e.tailPower = atomPower := by
  cases e with
  | binary left op right => exact absurd h (Nat.ne_of_lt op.power_lt_atomPower)
  | unary op operand => cases op <;> cases h
  | _ => first | rfl | cases h

theorem opensEscape_of_atom (h : e.power = atomPower) : e.opensEscape = false := by
  cases e with
  | binary left op right => exact absurd h (Nat.ne_of_lt op.power_lt_atomPower)
  | unary op operand => cases op <;> cases h
  | _ => first | rfl | cases h

theorem isNegated_of_not_isPrefixed (h : e.isPrefixed = false) : e.isNegated = false := by
  cases e with
  | unary => cases h
  | _ => rfl

end Atoms

/-- What the loop over operators keeps about the expression read so far. -/
structure SoFar (least : Nat) (e : Expr) (input rest : List Symbol) : Prop
    extends e.Parsed input rest, e.Ends rest where
  fits : e.fitsRight least = true
  leads : ∀ q, infixAhead rest = some q → e.leads q = true
  negated : e.isNegated = true → kindAhead input 0 = .keyword .NOT

/-- The expression is of a form whose left operand is what was read so far. -/
structure Extends (e left : Expr) (form : InfixForm) (input rest : List Symbol) : Prop
    extends e.Ends rest where
  takes : ∃ kinds, Passes input kinds rest ∧
    payload e.symbols = payload left.symbols ++ (form.payload ++ kinds)
  wellFormed : e.WellFormed Phrase.Parsed
  power : e.power = form.power
  unprefixed : e.isPrefixed = false
  le_power : ∀ q, infixAhead rest = some q → e.isTest = true ∨ q ≤ e.power

/-- Before an operator that is no stronger, an expression can be its left operand. -/
theorem Ends.leads {e : Expr} {rest : List Symbol} (h : e.Ends rest)
    (hle : ∀ q, infixAhead rest = some q → e.isTest = true ∨ q ≤ e.power) (q : Nat)
    (hq : infixAhead rest = some q) : e.leads q = true := by
  have htail := h.tail q hq
  rw [Expr.leads, fitsLeft]
  rcases hle q hq with htest | hpower
  · rw [htest, Bool.true_or]
  · simp [hpower, htail]

/-- What holds no open operand is ended by everything. -/
theorem ends_of_tailPower {e : Expr} {rest : List Symbol} (htail : e.tailPower = atomPower)
    (hescape : e.opensEscape = false) : e.Ends rest where
  tail q hq := by
    have hlt : collatePower < atomPower := by decide
    have hle := infixAhead_le hq
    omega
  escape _ := hescape

/-- A primary expression is the first thing that the loop has. -/
theorem Parsed.soFar {least : Nat} {e : Expr} {input rest : List Symbol} (h : e.Parsed input rest)
    (hpower : e.power = atomPower) (hleast : least ≤ atomPower)
    (hprefixed : e.isPrefixed = false) : e.SoFar least input rest where
  toParsed := h
  toEnds := ends_of_tailPower (tailPower_of_atom hpower) (opensEscape_of_atom hpower)
  fits := by simp [fitsRight, hpower, hleast]
  leads q hq := by
    have hlt : collatePower < atomPower := by decide
    have hle := infixAhead_le hq
    have hfit : e.fitsLeft q = true := by
      rw [fitsLeft, tailPower_of_atom hpower, hpower]
      simp only [Bool.and_eq_true, decide_eq_true_eq]
      omega
    rw [Expr.leads, hfit, Bool.or_true]
  negated hneg := by
    rw [isNegated_of_not_isPrefixed hprefixed] at hneg
    cases hneg

end Expr

namespace Grammar

variable {room : Nat} {input : List Symbol}

/-! ## The start of an operand -/

theorem kind_of_ofKind? {kind : TokenKind} {op : UnaryOp} (h : UnaryOp.ofKind? kind = some op) :
    kind = op.terminal.kind := by
  unfold UnaryOp.ofKind? at h
  split at h <;> cases h <;> rfl

/-- A prefix operator and its operand. -/
theorem soFar_unary {least : Nat} {op : UnaryOp} {x : Expr} {mid rest : List Symbol}
    (hnext : Next input op.terminal.kind mid) (hx : x.ParsedOperand op.power mid rest) :
    (Expr.unary op x).SoFar least input rest := by
  have hends : (Expr.unary op x).Ends rest := by
    refine ⟨fun q hq => ?_, hx.escape⟩
    have htail := hx.tail q hq
    have hstop := hx.stops q hq
    -- of the prefix operators only `NOT` takes in what binds more weakly than its operand
    cases op with
    | not => exact Nat.lt_min.2 ⟨hstop, htail⟩
    | _ => exact htail
  have hwf : (Expr.unary op x).WellFormed Phrase.Parsed :=
    .single trivial ⟨trivial, hx.fits⟩ rfl hx.wellFormed
  refine ⟨⟨?_, hwf⟩, hends, rfl, hends.leads ?_, ?_⟩
  · have hsign : op.terminal.kind ≠ .operator .semicolon := by cases op <;> decide
    refine ((hnext.passes hsign).trans hx.passes).cast ?_
    rw [Expr.symbols_unary, payload_cons, Terminal.symbol_kind, Expr.payload_rightSymbols]
  · exact fun q hq => .inr (Nat.le_of_lt (hx.stops q hq))
  · intro hneg
    cases op with
    | not => exact hnext.kindAhead
    | _ => cases hneg

theorem ensures_operandHead (h : Sound room) {least : Nat} (hleast : least ≤ atomPower) :
    Ensures room operandHead input fun e rest => e.SoFar least input rest := by
  refine ensures_kind_bind ?_
  split
  · next op hop =>
    refine ensures_bind (ensures_advance_next (kind_of_ofKind? hop) op.terminal.kind_ne_eof)
      fun _ mid hnext => ?_
    exact ensures_bind (h.operand op.power_le mid) fun x rest hx =>
      ensures_pure (soFar_unary hnext hx)
  · -- a primary expression binds like an atom, hence starts with no prefix operator
    refine ensures_mono (ensures_primary h) fun e rest he => he.1.soFar he.2 hleast ?_
    cases e with
    | unary op operand => cases op <;> cases he.2
    | _ => rfl

/-! ## Forms -/

section Forms

variable {left e x y : Expr} {mid rest : List Symbol} {negated : Bool}

/-- The right operand of a form ends before every operator that the form cannot stand before. -/
theorem le_of_parsedOperand {power : Nat} (h : x.ParsedOperand (power + 1) mid rest) (q : Nat)
    (hq : infixAhead rest = some q) : q ≤ power := Nat.le_of_lt_succ (h.stops q hq)

theorem extends_binary {op : BinaryOp} (hleft : left.WellFormed Phrase.Parsed)
    (hleads : left.leads op.power = true) (hop : op ≠ .is ∧ op ≠ .isNot)
    (hx : x.ParsedOperand (op.power + 1) input rest) :
    (Expr.binary left op x).Extends left (.binary op) input rest where
  toEnds := ⟨hx.tail, hx.escape⟩
  takes := by
    refine ⟨_, hx.passes, ?_⟩
    rw [Expr.symbols_binary]
    simp [InfixForm.payload]
  wellFormed := by
    have hunambiguous : (Phrase.expr (.binary left op x)).Unambiguous := by
      cases op with
      | is => exact absurd rfl hop.1
      | isNot => exact absurd rfl hop.2
      | _ => trivial
    refine .intro ⟨trivial, hunambiguous, hleads, hx.fits⟩ fun p hp => ?_
    simp only [Phrase.parts, List.mem_cons, List.not_mem_nil, or_false] at hp
    rcases hp with rfl | rfl
    · exact hleft
    · exact hx.wellFormed
  power := rfl
  unprefixed := rfl
  le_power q hq := .inr (le_of_parsedOperand hx q hq)

/-- A test that ends with its operator can stand before every operator. -/
theorem extends_isNull {form : InfixForm} (hform : form.power = equalityPower)
    (hpayload : form.payload = []) (hleft : left.WellFormed Phrase.Parsed)
    (hleads : left.leads equalityPower = true) (hpass : Passes input [] rest) :
    (Expr.isNull left negated).Extends left form input rest where
  toEnds := Expr.ends_of_tailPower rfl rfl
  takes := by
    refine ⟨[], hpass, ?_⟩
    rw [Expr.symbols_isNull, hpayload]
    simp
  wellFormed := .single trivial ⟨trivial, hleads⟩ rfl hleft
  power := hform.symm
  unprefixed := rfl
  le_power _ _ := .inl rfl

/-- A comparison by `IS` is the test for null if its right operand is a bare `NULL`. Without a `NOT`
of the operator the operand does not start with one either. -/
theorem extends_is {isNot : Bool} (hleft : left.WellFormed Phrase.Parsed)
    (hleads : left.leads equalityPower = true) (hpass : Passes input [] mid)
    (hnot : isNot = false → kindAhead mid 0 ≠ .keyword .NOT)
    (hx : x.ParsedOperand (equalityPower + 1) mid rest) (hnull : x ≠ .literal .null) :
    (Expr.binary left (if isNot then .isNot else .is) x).Extends left .is input rest where
  toEnds := ⟨hx.tail, hx.escape⟩
  takes := by
    refine ⟨_, hpass.trans hx.passes, ?_⟩
    rw [Expr.symbols_binary]
    cases isNot <;> simp [InfixForm.payload, BinaryOp.terminals]
  wellFormed := by
    have hparts : ∀ op, ∀ p ∈ (Phrase.expr (.binary left op x)).parts,
        p.WellFormed Phrase.Parsed := by
      intro op p hp
      simp only [Phrase.parts, List.mem_cons, List.not_mem_nil, or_false] at hp
      rcases hp with rfl | rfl
      · exact hleft
      · exact hx.wellFormed
    cases isNot with
    | true => exact .intro ⟨trivial, hnull, hleads, hx.fits⟩ (hparts _)
    | false =>
      -- a first `NOT` would have been taken for that of `IS NOT`
      have hneg : x.isNegated = false := Bool.eq_false_iff.2 fun hneg => hnot rfl (hx.negated hneg)
      exact .intro ⟨trivial, ⟨hnull, hneg⟩, hleads, hx.fits⟩ (hparts _)
  power := by cases isNot <;> rfl
  unprefixed := rfl
  le_power q hq := by
    refine .inr (Nat.le_trans (le_of_parsedOperand hx q hq) (Nat.le_of_eq ?_))
    cases isNot <;> rfl

/-- Behind a pattern stands its escape, or something that is no escape. -/
theorem extends_like {op : LikeOp} {escape : Option Expr} (hleft : left.WellFormed Phrase.Parsed)
    (hleads : left.leads equalityPower = true)
    (hx : x.ParsedOperand (equalityPower + 1) input mid)
    (hescape : (escape = none ∧ rest = mid ∧ kindAhead mid 0 ≠ .keyword .ESCAPE) ∨
      ∃ y behind, escape = some y ∧ Next mid (.keyword .ESCAPE) behind ∧
        y.ParsedOperand (equalityPower + 1) behind rest) :
    (Expr.like left op x escape negated).Extends left (.like op) input rest := by
  have hends : (Expr.like left op x escape negated).Ends rest := by
    rcases hescape with ⟨rfl, rfl, hne⟩ | ⟨y, behind, rfl, -, hy⟩
    · exact ⟨hx.tail, fun hkind => absurd hkind hne⟩
    · exact ⟨hy.tail, hy.escape⟩
  refine ⟨hends, ?_, ?_, rfl, rfl, fun q hq => .inr ?_⟩
  · rcases hescape with ⟨rfl, rfl, -⟩ | ⟨y, behind, rfl, hnext, hy⟩
    · refine ⟨_, hx.passes, ?_⟩
      rw [Expr.symbols_like]
      simp [InfixForm.payload]
    · refine ⟨_, hx.passes.trans (hnext.passes_keyword.trans hy.passes), ?_⟩
      have hright : payload (Pieces.symbols (y.rightPieces (equalityPower + 1))) =
          payload y.symbols := y.payload_rightSymbols _
      rw [Expr.symbols_like]
      simp [InfixForm.payload, hright]
  · -- a pattern that is open for an escape would have taken it
    have hunambiguous : (Phrase.expr (.like left op x escape negated)).Unambiguous := by
      rcases hescape with ⟨rfl, -⟩ | ⟨y, behind, rfl, hnext, -⟩
      · trivial
      · exact hx.escape hnext.kindAhead
    have hfits : ∀ z ∈ escape, z.fitsRight (equalityPower + 1) = true ∧
        z.WellFormed Phrase.Parsed := by
      rcases hescape with ⟨rfl, -⟩ | ⟨y, behind, rfl, -, hy⟩
      · nofun
      · rintro z hz
        cases hz
        exact ⟨hy.fits, hy.wellFormed⟩
    refine .intro ⟨trivial, hunambiguous, hleads, hx.fits, fun z hz => (hfits z hz).1⟩ ?_
    intro p hp
    simp only [Phrase.parts, List.mem_append, List.mem_cons, List.not_mem_nil, or_false,
      Phrase.mem_ofOption] at hp
    rcases hp with (rfl | rfl) | ⟨z, hz, rfl⟩
    · exact hleft
    · exact hx.wellFormed
    · exact (hfits z hz).2
  · rcases hescape with ⟨-, rfl, -⟩ | ⟨y, behind, -, -, hy⟩
    · exact le_of_parsedOperand hx q hq
    · exact le_of_parsedOperand hy q hq

theorem extends_between {behind : List Symbol} (hleft : left.WellFormed Phrase.Parsed)
    (hleads : left.leads equalityPower = true)
    (hx : x.ParsedOperand (equalityPower + 1) input mid) (hand : Next mid (.keyword .AND) behind)
    (hy : y.ParsedOperand (equalityPower + 1) behind rest) :
    (Expr.between left x y negated).Extends left .between input rest where
  -- the high bound stands at the end
  toEnds := ⟨hy.tail, hy.escape⟩
  takes := by
    refine ⟨_, hx.passes.trans (hand.passes_keyword.trans hy.passes), ?_⟩
    rw [Expr.symbols_between]
    simp [InfixForm.payload]
  wellFormed := by
    refine .intro ⟨trivial, trivial, hleads, hx.fits, hy.fits⟩ fun p hp => ?_
    simp only [Phrase.parts, List.mem_cons, List.not_mem_nil, or_false] at hp
    rcases hp with rfl | rfl | rfl
    · exact hleft
    · exact hx.wellFormed
    · exact hy.wellFormed
  power := rfl
  unprefixed := rfl
  le_power q hq := .inr (le_of_parsedOperand hy q hq)

theorem extends_within {set : InSet} (hleft : left.WellFormed Phrase.Parsed)
    (hleads : left.leads equalityPower = true)
    (hpass : Passes input (payload (Pieces.symbols set.pieces)) rest)
    (hset : (Phrase.set set).WellFormed Phrase.Parsed) :
    (Expr.within left set negated).Extends left .within input rest where
  toEnds := Expr.ends_of_tailPower rfl rfl
  takes := by
    refine ⟨_, hpass, ?_⟩
    rw [Expr.symbols_within]
    simp [InfixForm.payload]
  wellFormed := by
    refine .intro ⟨trivial, trivial, hleads⟩ fun p hp => ?_
    simp only [Phrase.parts, List.mem_cons, List.not_mem_nil, or_false] at hp
    rcases hp with rfl | rfl
    · exact hleft
    · exact hset
  power := rfl
  unprefixed := rfl
  le_power _ _ := .inl rfl

theorem extends_collate {collation : String} (hleft : left.WellFormed Phrase.Parsed)
    (hleads : left.leads collatePower = true) (hname : Next input (.identifier collation) rest) :
    (Expr.collate left collation).Extends left .collate input rest where
  toEnds := Expr.ends_of_tailPower rfl rfl
  takes := by
    refine ⟨_, hname.passes_name, ?_⟩
    rw [Expr.symbols_collate]
    simp [InfixForm.payload]
  wellFormed := .single trivial ⟨trivial, hleads⟩ rfl hleft
  power := rfl
  unprefixed := rfl
  le_power q hq := .inr (infixAhead_le hq)

end Forms

/-- What `IN` looks into. -/
theorem ensures_inSet (h : Sound room) : Ensures room inSet input fun s rest =>
    Passes input (payload (Pieces.symbols s.pieces)) rest ∧
      (Phrase.set s).WellFormed Phrase.Parsed := by
  refine ensures_startsQuery_bind fun here => ?_
  cases here with
  | true =>
    exact ensures_bind (h.select input) fun q rest hq =>
      ensures_pure ⟨hq.1, .single trivial ⟨trivial, trivial⟩ rfl hq.2⟩
  | false =>
    refine ensures_isAt_bind ?_
    split
    · exact ensures_pure ⟨.refl _, .intro ⟨trivial, trivial, trivial⟩ nofun⟩
    · refine ensures_bind (h.exprs input) fun es rest hes => ensures_pure ⟨hes.2.1.cast ?_, ?_⟩
      · rw [InSet.pieces, exprsPieces_eq]
      · exact .intro ⟨trivial, trivial, trivial⟩ (wellFormed_of_mem_map hes.2.2)

/-- The rest of a form, whose left operand can stand before it. -/
theorem ensures_infixRest (h : Sound room) {left : Expr} {negated : Bool} {form : InfixForm}
    (hleft : left.WellFormed Phrase.Parsed) (hleads : left.leads form.power = true)
    (hbinary : ∀ op, form = .binary op → op ≠ .is ∧ op ≠ .isNot) :
    Ensures room (infixRest left negated (form.power + 1) form) input fun e rest =>
      e.Extends left form input rest := by
  have htest : equalityPower + 1 ≤ atomPower := by decide
  cases form with
  | like op =>
    refine ensures_bind (h.operand htest input) fun x mid hx => ?_
    refine ensures_bind (R := fun escape rest =>
        (escape = none ∧ rest = mid ∧ kindAhead mid 0 ≠ .keyword .ESCAPE) ∨
          ∃ y behind, escape = some y ∧ Next mid (.keyword .ESCAPE) behind ∧
            y.ParsedOperand (equalityPower + 1) behind rest)
      (ensures_behind (fun behind hnext => ?_) fun hne => .inl ⟨rfl, rfl, hne⟩)
      fun escape rest hescape => ensures_pure (extends_like hleft hleads hx hescape)
    exact ensures_mono (h.operand htest behind) fun y rest hy => .inr ⟨y, behind, rfl, hnext, hy⟩
  | is =>
    refine ensures_bind (ensures_accept _) fun isNot mid hisNot => ?_
    have hpass : Passes input [] mid ∧ (isNot = false → kindAhead mid 0 ≠ .keyword .NOT) := by
      rcases hisNot with ⟨rfl, hnext⟩ | ⟨rfl, rfl, hne⟩
      · exact ⟨hnext.passes_keyword, nofun⟩
      · exact ⟨.refl _, fun _ => hne⟩
    refine ensures_bind (h.operand htest mid) fun x rest hx => ?_
    -- behind `IS` a bare `NULL` makes the test for null
    split
    · refine ensures_pure (extends_isNull rfl rfl hleft hleads ?_)
      exact (hpass.1.trans hx.passes).cast rfl
    · next hnull => exact ensures_pure (extends_is hleft hleads hpass.1 hpass.2 hx hnull)
  | isNull => exact ensures_pure (extends_isNull rfl rfl hleft hleads (.refl _))
  | notNull => exact ensures_pure (extends_isNull rfl rfl hleft hleads (.refl _))
  | within =>
    exact ensures_bind (ensures_parenthesized fun _ => ensures_inSet h) fun set rest hset =>
      ensures_pure (extends_within hleft hleads hset.1 hset.2)
  | between =>
    refine ensures_bind (h.operand htest input) fun x mid hx => ?_
    refine ensures_bind (ensures_expect _) fun _ behind hand => ?_
    exact ensures_bind (h.operand htest behind) fun y rest hy =>
      ensures_pure (extends_between hleft hleads hx hand hy)
  | collate =>
    exact ensures_bind ensures_identifier fun collation rest hname =>
      ensures_pure (extends_collate hleft hleads hname)
  | binary op =>
    exact ensures_bind (h.operand (Nat.le_of_lt op.succ_power_lt) input) fun x rest hx =>
      ensures_pure (extends_binary hleft hleads (hbinary op rfl) hx)

/-! ## The loop over operators -/

/-- The token ahead starts a form of the power that was found, or is a `NOT` before such a token. -/
theorem power_of_infixAhead {ss : List Symbol} {form : InfixForm} {q : Nat}
    (hq : infixAhead ss = some q) :
    (kindAhead ss 0 ≠ .keyword .NOT → InfixForm.ofKind? (kindAhead ss 0) = some form →
      form.power = q) ∧
    (kindAhead ss 0 = .keyword .NOT → InfixForm.ofKind? (kindAhead ss 1) = some form →
      form.power = q) := by
  unfold infixAhead infixHere? at hq
  cases hpower : infixPower? (kindAhead ss 0) with
  | none => simp [hpower] at hq
  | some power =>
    simp only [hpower, if_neg (Nat.not_lt_zero power)] at hq
    split at hq
    · cases hq
    · next hnot =>
      cases hq
      refine ⟨fun _ hform => InfixForm.power_of_ofKind? hform hpower, fun hkind hform => ?_⟩
      rw [hkind] at hpower hnot
      cases hpower
      refine InfixForm.power_of_followsInfixNot hform ?_
      simpa using hnot

/-- A form behind what was read so far. It starts with its token or with a `NOT` before that. -/
theorem ensures_infixForm (h : Sound room) {left : Expr} {q : Nat}
    (hleft : left.WellFormed Phrase.Parsed) (hq : infixAhead input = some q)
    (hleads : left.leads q = true) :
    Ensures room (infixForm left (q + 1)) input fun e rest => ∃ form behind,
      Passes input form.payload behind ∧ behind.length < input.length ∧ form.power = q ∧
        e.Extends left form behind rest := by
  refine ensures_bind (ensures_accept _) fun negated mid hnegated => ?_
  -- with a `NOT` or without, the form is of the power that was found ahead
  have hmid : Passes input [] mid ∧ mid.length ≤ input.length ∧
      ∀ form, InfixForm.ofKind? (kindAhead mid 0) = some form → form.power = q := by
    rcases hnegated with ⟨-, hnext⟩ | ⟨-, rfl, hne⟩
    · refine ⟨hnext.passes_keyword, hnext.suffix.length_le, fun form hform => ?_⟩
      refine (power_of_infixAhead hq).2 hnext.kindAhead ?_
      obtain ⟨s, rfl, -⟩ := hnext
      exact hform
    · exact ⟨.refl _, Nat.le_refl _, fun form hform => (power_of_infixAhead hq).1 hne hform⟩
  refine ensures_kind_bind ?_
  split
  · next form hform =>
    obtain ⟨hpayload, hne, hsemicolon⟩ := InfixForm.payload_of_ofKind? hform
    -- the right operand is held more strongly than the form holds its left one
    obtain rfl := hmid.2.2 form hform
    refine ensures_bind (ensures_advance_next rfl hne) fun _ behind hnext => ?_
    refine ensures_mono (ensures_infixRest h hleft hleads ?_) fun e rest he => ?_
    · rintro op rfl
      exact InfixForm.binary_of_ofKind? hform
    · have hlength := hnext.length
      refine ⟨form, behind, ?_, by omega, rfl, he⟩
      exact (hmid.1.trans (hnext.passes hsemicolon)).cast hpayload
  · exact ensures_unexpected

/-- What was read so far, extended by a form that binds strongly enough, is what is read now. -/
theorem soFar_of_extends {least : Nat} {left e : Expr} {form : InfixForm}
    {mid behind rest : List Symbol} (hleft : left.SoFar least input mid)
    (hle : least ≤ form.power) (hpass : Passes mid form.payload behind)
    (he : e.Extends left form behind rest) : e.SoFar least input rest := by
  obtain ⟨kinds, hkinds, hpayload⟩ := he.takes
  refine ⟨⟨?_, he.wellFormed⟩, he.toEnds, ?_, he.leads he.le_power, fun hneg => ?_⟩
  · exact (hleft.passes.trans (hpass.trans hkinds)).cast hpayload.symm
  · rw [Expr.fitsRight, he.unprefixed, he.power]
    simpa using hle
  · rw [Expr.isNegated_of_not_isPrefixed he.unprefixed] at hneg
    cases hneg

/-- A step of the loop takes a form, or nothing if the operator ahead binds too weakly. -/
theorem ensures_extend (h : Sound room) {least : Nat} {left : Expr} {mid : List Symbol}
    (hleft : left.SoFar least input mid) :
    Ensures room (extend least left) mid fun found rest =>
      (found = none → rest = mid ∧ ∀ q, infixAhead mid = some q → q < least) ∧
        ∀ e, found = some e → e.SoFar least input rest ∧ rest.length < mid.length := by
  refine ensures_look_bind (ensures_look_bind ?_)
  split
  · next q hq =>
    obtain ⟨hzero, hle⟩ := infixHere?_zero hq
    refine ensures_bind (ensures_infixForm h hleft.wellFormed hzero (hleft.leads q hzero)) ?_
    rintro e rest ⟨form, behind, hpass, hshort, rfl, he⟩
    obtain ⟨kinds, hkinds, -⟩ := he.takes
    have hlength := hkinds.suffix.length_le
    refine ensures_pure ⟨nofun, fun e' heq => ?_⟩
    cases heq
    exact ⟨soFar_of_extends hleft hle hpass he, by omega⟩
  · next hnone =>
    refine ensures_pure ⟨fun _ => ⟨rfl, fun q hq => ?_⟩, nofun⟩
    -- an operator that binds strongly enough would have been found
    refine Nat.lt_of_not_le fun hle => ?_
    rw [infixHere?_of_le hq hle] at hnone
    cases hnone

/-- An operand in which only operators of a least power are taken. -/
theorem ensures_operand (h : Sound room) {least : Nat} (hleast : least ≤ atomPower) :
    Ensures room (operand least) input fun e rest => e.ParsedOperand least input rest := by
  refine ensures_bind (ensures_operandHead h hleast) fun first mid hfirst => ?_
  -- `Expr.SoFar` carries the loop. A step that takes nothing is its last one.
  refine ensures_iterate (I := fun e rest => e.SoFar least input rest) hfirst fun e mid he => ?_
  refine ensures_mono (ensures_extend h he) fun found rest ⟨hnone, hsome⟩ => ⟨?_, ?_⟩
  · intro hfound
    obtain ⟨rfl, hstops⟩ := hnone hfound
    exact ⟨he.toParsed, he.toEnds, he.fits, hstops, he.negated⟩
  · intro e' hfound
    obtain ⟨he', hshort⟩ := hsome e' hfound
    exact ⟨he', fun hlong => absurd hshort (Nat.not_lt.2 hlong)⟩

end Grammar

end SqlGrammar
