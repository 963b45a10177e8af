import SqlGrammar.Proofs.Parsed.Terminals
import SqlGrammar.Proofs.Reading.Operators
import SqlGrammar.Proofs.Tree.Natural

/-!
# What the goals of the grammar yield

For every goal of the grammar: what is true of a tree that was read for it. The tree is well formed
and every operand in it stands where it may stand, and it is written with the payload that was taken
for it. Since goals are nested, all of them are dealt with together, by induction on the levels that
are left; `Sound` is the hypothesis of that induction.
-/

set_option autoImplicit false

namespace SqlGrammar

open SqlGrammar.Parser Grammar

/-! ## Expressions -/

/-- An expression was taken from the front of the symbols. -/
structure Expr.Parsed (e : Expr) (input rest : List Symbol) : Prop where
  passes : Passes input (payload e.symbols) rest
  wellFormed : e.WellFormed Phrase.Parsed

/-- What is left behind an expression is not drawn into the end of it. -/
structure Expr.Ends (e : Expr) (rest : List Symbol) : Prop where
  tail : ∀ q, infixAhead rest = some q → q < e.tailPower
  escape : kindAhead rest 0 = .keyword .ESCAPE → e.opensEscape = false

/-- An expression was taken as an operand in which only operators of a least power are taken. -/
structure Expr.ParsedOperand (least : Nat) (e : Expr) (input rest : List Symbol) : Prop
    extends e.Parsed input rest, e.Ends rest where
  fits : e.fitsRight least = true
  stops : ∀ q, infixAhead rest = some q → q < least
  negated : e.isNegated = true → kindAhead input 0 = .keyword .NOT

/-! ## Types -/

/-- A type was taken from the front of the symbols. Of a type of several words only the first is
kept, so that it takes its payload only if no name stands behind the first. -/
structure TypeName.Parsed (type : TypeName) (input rest : List Symbol) : Prop where
  name : (kindAhead input 0).isIdentifier = true
  passes : ∃ kinds, Passes input kinds rest ∧ ((kindAhead input 1).isIdentifier = false →
    kinds = payload (Pieces.symbols type.pieces))
  wellMade : type.WellMade

/-- Behind a name or an `AS` a plainly written type is a single word. -/
theorem TypeName.Parsed.behind {type : TypeName} {s : Symbol} {input rest : List Symbol}
    (h : type.Parsed input rest) (hs : s.kind.isIdentifier = true ∨ s.kind = .keyword .AS) :
    Passes (s :: input) (s.kind.payload ++ payload (Pieces.symbols type.pieces)) rest := by
  obtain ⟨kinds, ⟨used, hinput, hused, hfree⟩, hkinds⟩ := h.passes
  refine ⟨s :: used, by rw [hinput]; rfl, fun hplain => ?_, ?_⟩
  · rw [payload_cons, hused (hplain.suffix (List.suffix_cons s input))]
    refine congrArg _ (hkinds ?_)
    obtain _ | ⟨b, _ | ⟨c, more⟩⟩ := input
    · rfl
    · rfl
    · exact hplain.types s b c more List.suffix_rfl hs h.name
  · simp only [List.mem_cons, forall_eq_or_imp]
    refine ⟨?_, hfree⟩
    rcases hs with hname | has
    · exact TokenKind.ne_of_holds hname rfl
    · rw [has]
      nofun

/-! ## Goals -/

/-- The symbols before the rest have a payload, if they are written plainly, and the last of them is
no semicolon. -/
structure Finishes (input : List Symbol) (kinds : List TokenKind) (rest : List Symbol) : Prop where
  moves : Moves input kinds rest
  last : ∀ before s, input = before ++ s :: rest → s.kind ≠ .operator .semicolon

theorem Passes.finishes {input rest : List Symbol} {kinds : List TokenKind}
    (h : Passes input kinds rest) : Finishes input kinds rest where
  moves := h.moves
  last before s hinput := by
    obtain ⟨used, rfl, -, hfree⟩ := h
    have happend : used ++ rest = before ++ [s] ++ rest := by
      rw [hinput, List.append_assoc]
      rfl
    have hused : used = before ++ [s] := List.append_cancel_right happend
    exact hfree s (by rw [hused]; simp)

/-- What is true of the tree that was read for a rule. A literal also tells the token that it stands
for, and the semicolons in the body of a trigger are part of the trigger. -/
def Rule.Parsed : (r : Rule) → List Symbol → r.Tree → List Symbol → Prop
  | statement, input, tree, rest =>
    Finishes input (payload (Pieces.symbols (Statement.pieces tree))) rest ∧
      Statement.WellFormed Phrase.Parsed tree
  | createTrigger, input, tree, rest =>
    Finishes input (payload (Pieces.symbols (CreateTrigger.pieces tree))) rest ∧
      CreateTrigger.WellFormed Phrase.Parsed tree
  | typeName, input, tree, rest => TypeName.Parsed tree input rest
  | literal, input, tree, rest =>
    Passes input (payload (Pieces.symbols (Literal.pieces tree))) rest ∧ Literal.WellMade tree ∧
      Literal.ofKind? (kindAhead input 0) = some tree
  | r, input, tree, rest =>
    Passes input (payload (Pieces.symbols (r.pieces tree))) rest ∧ r.WellFormed Phrase.Parsed tree

/-- What is true of the tree that was read for a goal. -/
def Goal.Parsed : (g : Goal) → List Symbol → g.Tree → List Symbol → Prop
  | rule r, input, tree, rest => r.Parsed input tree rest
  | operand least, input, e, rest => least ≤ atomPower → e.ParsedOperand least input rest

/-- With at most this number of levels left, every goal yields what it should. -/
def Grammar.Sound (room : Nat) : Prop :=
  ∀ r, r ≤ room → ∀ g input, Ensures r (Parser.goal g) input (g.Parsed input)

namespace Grammar

variable {room : Nat} {input : List Symbol}

theorem Sound.goal (h : Sound room) (g : Goal) (input : List Symbol) :
    Ensures room (Parser.goal g) input (g.Parsed input) := h room (Nat.le_refl room) g input

theorem Sound.lower (h : Sound room) {r : Nat} (hr : r < room) : Sound r :=
  fun r' hr' => h r' (Nat.le_trans hr' (Nat.le_of_lt hr))

theorem Sound.expr (h : Sound room) (input : List Symbol) :
    Ensures room Rule.expr.parse input fun e rest => e.Parsed input rest :=
  ensures_mono (h.goal (.rule .expr) input) fun _ _ he => ⟨he.1, he.2⟩

theorem Sound.select (h : Sound room) (input : List Symbol) :
    Ensures room Rule.select.parse input fun q rest =>
      Passes input (payload q.symbols) rest ∧ q.WellFormed Phrase.Parsed :=
  h.goal (.rule .select) input

theorem Sound.operand (h : Sound room) {least : Nat} (hleast : least ≤ atomPower)
    (input : List Symbol) :
    Ensures room (operandOf least) input fun e rest => e.ParsedOperand least input rest :=
  ensures_mono (h.goal (.operand least) input) fun _ _ he => he hleast

/-- Expressions with commas between them. -/
theorem Sound.exprs (h : Sound room) (input : List Symbol) :
    Ensures room (commaSeparated Rule.expr.parse) input fun es rest => es ≠ [] ∧
      Passes input (payload (Pieces.symbols (Pieces.commaList (es.map Expr.pieces)))) rest ∧
      ∀ e ∈ es, e.WellFormed Phrase.Parsed :=
  ensures_commaSeparated fun mid =>
    ensures_mono (h.expr mid) fun _ _ he => ⟨he.passes, he.wellFormed⟩

/-- An expression behind a keyword, if the keyword is there. -/
theorem Sound.behind (h : Sound room) (word : Keyword) (input : List Symbol) :
    Ensures room (behind? word Rule.expr.parse) input fun e rest =>
      Passes input (payload (Pieces.symbols ((e.map Expr.pieces).getD []))) rest ∧
      ∀ x ∈ e, x.WellFormed Phrase.Parsed := by
  refine ensures_behind (fun mid hnext => ?_) fun _ => ⟨.refl _, by simp⟩
  refine ensures_mono (h.expr mid) fun e rest he => ⟨?_, ?_⟩
  · exact (hnext.passes_keyword.trans he.passes).cast rfl
  · rintro x hx
    cases hx
    exact he.wellFormed

end Grammar

end SqlGrammar
