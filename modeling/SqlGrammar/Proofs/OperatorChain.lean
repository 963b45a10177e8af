import SqlGrammar.Proofs.Canonical

/-!
# Chains of operators

A chain is an operand, an operator, an operand, an operator and so on, where each operand is a
single token behind any number of signs. The tree of a chain is defined by recursion on the chain as
a whole: its root is the rightmost one of the operators with the least binding power, and what
stands before and behind that operator are the chains of its operands (`Chain.treeOf`).

The grammar reads a chain from left to right, with a loop and a least power that is handed down. It
comes to the same tree, for chains of any length (`Chain.readAs_tree`).
-/

set_option autoImplicit false

namespace SqlGrammar

open Lexer SqlGrammar.Parser Grammar

namespace Chain

/-! ## Operands -/

/-- The operand that a token of this kind is by itself: a literal other than `NULL`, a parameter, or
the name of a column. -/
def atom? : TokenKind → Option Expr
  | .parameter text => some (.parameter text)
  | .identifier name => some (.column none none name)
  | kind =>
    match Literal.ofKind? kind with
    | some .null => none
    | some value => some (.literal value)
    | none => none

/-- An operand of a chain: a token that is an operand by itself, behind signs. -/
structure Operand where
  signs : List UnaryOp
  kind : TokenKind
  atom : Expr
  ne_not : ∀ op ∈ signs, op ≠ .not
  atom_eq : atom? kind = some atom

namespace Operand

/-- The operand as a tree: every sign applies to what stands behind it. -/
def expr (a : Operand) : Expr := a.signs.foldr .unary a.atom

/-- The kinds of the tokens of the operand. -/
def kinds (a : Operand) : List TokenKind := a.signs.map (fun op => op.terminal.kind) ++ [a.kind]

end Operand

/-- An operator of a chain and the operand behind it. -/
structure Link where
  op : BinaryOp
  operand : Operand

/-- The kinds of the tokens of the link. `IS NOT` is an operator of two tokens. -/
def Link.kinds (l : Link) : List TokenKind := l.op.terminals.map Terminal.kind ++ l.operand.kinds

/-! ## The tree of a chain -/

/-- A chain of links, taken apart at one of them. -/
structure Parting where
  before : List Link
  root : Link
  after : List Link

/-- The links taken apart at the rightmost one of those with the least binding power. -/
def part : Link → List Link → Parting
  | l, [] => ⟨[], l, []⟩
  | l, next :: ls =>
    let parting := part next ls
    if l.op.power < parting.root.op.power then ⟨[], l, next :: ls⟩
    else ⟨l :: parting.before, parting.root, parting.after⟩

/-- The links are parted at an operator that binds more weakly than all behind it, and at most as
strongly as all before it. -/
structure Parting.Parts (p : Parting) (ls : List Link) : Prop where
  eq : p.before ++ p.root :: p.after = ls
  before : ∀ l ∈ p.before, p.root.op.power ≤ l.op.power
  after : ∀ l ∈ p.after, p.root.op.power < l.op.power

theorem part_parts (l : Link) (ls : List Link) : (part l ls).Parts (l :: ls) := by
  induction ls generalizing l with
  | nil =>
    exact ⟨rfl, fun _ h => absurd h List.not_mem_nil, fun _ h => absurd h List.not_mem_nil⟩
  | cons next ls ih =>
    obtain ⟨heq, hbefore, hafter⟩ := ih next
    simp only [part]
    generalize part next ls = p at heq hbefore hafter ⊢
    split
    · next hlt =>
      -- the first operator is weaker than the weakest of the others
      refine ⟨rfl, fun _ h => absurd h List.not_mem_nil, fun l' hl' => ?_⟩
      dsimp only at hl' ⊢
      rw [← heq, List.mem_append, List.mem_cons] at hl'
      rcases hl' with h | rfl | h
      · exact Nat.lt_of_lt_of_le hlt (hbefore l' h)
      · exact hlt
      · exact Nat.lt_trans hlt (hafter l' h)
    · next hge =>
      refine ⟨congrArg (l :: ·) heq, fun l' hl' => ?_, hafter⟩
      rcases List.mem_cons.1 hl' with rfl | h
      · exact Nat.le_of_not_lt hge
      · exact hbefore l' h

theorem Parting.Parts.length {p : Parting} {ls : List Link} (h : p.Parts ls) :
    p.before.length + p.after.length + 1 = ls.length := by
  rw [← h.eq, List.length_append, List.length_cons]
  omega

/-- The tree of an operand and the links behind it: the root is the rightmost operator of the least
binding power. -/
def treeOf (first : Operand) : List Link → Expr
  | [] => first.expr
  | l :: ls =>
    .binary (treeOf first (part l ls).before) (part l ls).root.op
      (treeOf (part l ls).root.operand (part l ls).after)
termination_by ls => ls.length
decreasing_by
  all_goals
    have := (part_parts l ls).length
    simp only [List.length_cons] at this ⊢
    omega

end Chain

/-- An operand, and operators with an operand behind each. -/
structure Chain where
  first : Chain.Operand
  links : List Chain.Link

namespace Chain

/-- The tree of the chain. -/
def tree (chain : Chain) : Expr := treeOf chain.first chain.links

/-- The kinds of the tokens of the chain. -/
def kinds (chain : Chain) : List TokenKind := chain.first.kinds ++ chain.links.flatMap Link.kinds

/-! ## Symbols -/

/-- The symbol of a token of this kind, unless it is a keyword that names a function. -/
def symbolOfKind : TokenKind → Symbol
  | .identifier name => .name name
  | kind => .leaf kind

@[simp] theorem symbolOfKind_kind (kind : TokenKind) : (symbolOfKind kind).kind = kind := by
  cases kind <;> rfl

/-- Whether a token of this kind is a keyword that names a function. -/
def isFunctionWord (kind : TokenKind) : Bool := kind.keyword?.any Keyword.namesFunction

theorem symbol_eq {t : Token} (h : isFunctionWord t.kind = false) :
    t.symbol = symbolOfKind t.kind := by
  rw [Token.symbol, Token.callee?]
  cases hkind : t.kind with
  | keyword word =>
    have hword : word.namesFunction = false := by rwa [hkind] at h
    simp [symbolOfKind, Symbol.leaf, hword]
  | _ => rfl

theorem isFunctionWord_of_atom {kind : TokenKind} {e : Expr} (h : atom? kind = some e) :
    isFunctionWord kind = false := by
  cases kind with
  | keyword word => cases word <;> first | rfl | cases h
  | _ => rfl

theorem isFunctionWord_sign (op : UnaryOp) : isFunctionWord op.terminal.kind = false := by
  cases op <;> rfl

theorem isFunctionWord_operator {op : BinaryOp} {t : Terminal} (h : t ∈ op.terminals) :
    isFunctionWord t.kind = false := by
  cases op <;> simp [BinaryOp.terminals] at h <;> first
    | (subst h; rfl)
    | (rcases h with rfl | rfl <;> rfl)

theorem Operand.isFunctionWord (a : Operand) :
    ∀ kind ∈ a.kinds, Chain.isFunctionWord kind = false := by
  intro kind hkind
  rw [kinds, List.mem_append, List.mem_map, List.mem_singleton] at hkind
  rcases hkind with ⟨op, -, rfl⟩ | rfl
  · exact isFunctionWord_sign op
  · exact isFunctionWord_of_atom a.atom_eq

theorem isFunctionWord_kinds (chain : Chain) :
    ∀ kind ∈ chain.kinds, isFunctionWord kind = false := by
  intro kind hkind
  rw [kinds, List.mem_append, List.mem_flatMap] at hkind
  rcases hkind with h | ⟨l, -, h⟩
  · exact chain.first.isFunctionWord kind h
  · rw [Link.kinds, List.mem_append, List.mem_map] at h
    rcases h with ⟨t, ht, rfl⟩ | h
    · exact isFunctionWord_operator ht
    · exact l.operand.isFunctionWord kind h

/-- Tokens of the kinds of the chain are the symbols of these kinds. -/
theorem symbols_of_kinds {chain : Chain} {tokens : List Token}
    (h : tokens.map Token.kind = chain.kinds ++ [.eof]) :
    tokens.map Token.symbol = chain.kinds.map symbolOfKind ++ [Symbol.leaf .eof] := by
  have hword : ∀ t ∈ tokens, isFunctionWord t.kind = false := by
    intro t ht
    have hmem : t.kind ∈ chain.kinds ++ [.eof] := h ▸ List.mem_map_of_mem ht
    rcases List.mem_append.1 hmem with hkind | hkind
    · exact isFunctionWord_kinds chain _ hkind
    · rw [List.mem_singleton.1 hkind]
      rfl
  have hsymbols : tokens.map Token.symbol = (tokens.map Token.kind).map symbolOfKind := by
    rw [List.map_map]
    exact List.map_congr_left fun t ht => symbol_eq (hword t ht)
  rw [hsymbols, h, List.map_append]
  rfl

/-! ## Reading operands -/

variable {least : Nat} {v : Expr} {rest r : List Symbol}

/-- What may stand behind an operand that is a single token: nothing that makes a name a qualifier
or a function. -/
structure EndsAtom (rest : List Symbol) : Prop where
  dot : kindAhead rest 0 ≠ .operator .dot
  call : kindAhead rest 0 ≠ .operator .leftParen

theorem reads_atom {kind : TokenKind} {e : Expr} (h : atom? kind = some e) (hends : EndsAtom rest) :
    Reads primary (symbolOfKind kind :: rest) e rest := by
  cases kind with
  | parameter text =>
    cases h
    exact reads_bind (reads_kind _) (reads_bind (reads_isNext _ _)
      (reads_bind (reads_advance (s := .leaf (.parameter text)) (by simp)) (reads_pure _ _)))
  | identifier name =>
    cases h
    exact Expr.reads_primary_name hends.call (reads_bind (reads_identifier name rest)
      (reads_bind (reads_accept_false hends.dot) (reads_pure _ _)))
  | keyword word =>
    cases word with
    | CURRENT_TIME | CURRENT_DATE | CURRENT_TIMESTAMP =>
      cases h
      exact Expr.reads_primary_literal rfl
    | _ => cases h
  | number text | string value | blob bytes =>
    cases h
    exact Expr.reads_primary_literal rfl
  | operator sign => cases h
  | eof => cases h

theorem ofKind?_of_atom {kind : TokenKind} {e : Expr} (h : atom? kind = some e) :
    UnaryOp.ofKind? kind = none := by
  cases kind with
  | keyword word => cases word <;> first | rfl | cases h
  | operator sign => cases h
  | _ => rfl

/-- No operator is as strong as a sign. -/
theorem lt_power_of_sign {op : UnaryOp} (h : op ≠ .not) {q : Nat}
    (hq : infixAhead rest = some q) : q < op.power := by
  have hle := infixAhead_le hq
  cases op with
  | not => exact absurd rfl h
  | _ => exact Nat.lt_of_le_of_lt hle (by decide : collatePower < signPower)

/-- The first part of an operand is an operand of a chain, if the loop goes on behind that. By
induction on the signs: behind each of them the loop stops at once. -/
theorem reads_operand_of_signs {kind : TokenKind} {e : Expr} (hatom : atom? kind = some e)
    (hends : EndsAtom rest) (signs : List UnaryOp) (hsigns : ∀ op ∈ signs, op ≠ .not) (least : Nat)
    (hloop : Reads (iterate (extend least) (signs.foldr .unary e)) rest v r) :
    Reads (operand least)
      ((signs.map (fun op => op.terminal.kind) ++ [kind]).map symbolOfKind ++ rest) v r := by
  induction signs generalizing least v r with
  | nil =>
    refine reads_operand_of_primary ?_ (reads_atom hatom hends) hloop
    rw [List.map_nil, List.nil_append, List.map_singleton, List.singleton_append,
      kindAhead_cons_zero, symbolOfKind_kind]
    exact ofKind?_of_atom hatom
  | cons op signs ih =>
    have hne : op ≠ .not := hsigns op List.mem_cons_self
    have hsymbol : symbolOfKind op.terminal.kind = op.terminal.symbol := by cases op <;> rfl
    have hinner := ih (fun op hop => hsigns op (List.mem_cons_of_mem _ hop)) op.power
      (reads_loop_stop fun q hq => lt_power_of_sign hne hq)
    rw [List.map_cons, List.cons_append, List.map_cons, List.cons_append, hsymbol]
    exact reads_operand_of_prefixed (reads_goal hinner) hloop

/-- An operand of a chain starts with a sign or is a single token; a `NOT` is neither. -/
theorem Operand.head_ne_not (a : Operand) (rest : List Symbol) :
    kindAhead (a.kinds.map symbolOfKind ++ rest) 0 ≠ .keyword .NOT := by
  obtain ⟨_ | ⟨op, signs⟩, kind, atom, hsigns, hatom⟩ := a
  · have hkind := ofKind?_of_atom hatom
    simp only [kinds, List.map_nil, List.nil_append, List.map_singleton, List.singleton_append,
      kindAhead_cons_zero, symbolOfKind_kind]
    rintro rfl
    cases hkind
  · have hne : op ≠ .not := hsigns op List.mem_cons_self
    cases op with
    | not => exact absurd rfl hne
    | _ => simp [kinds, UnaryOp.terminal, Terminal.kind]

theorem Operand.expr_ne_null (a : Operand) : a.expr ≠ .literal .null := by
  obtain ⟨_ | ⟨op, signs⟩, kind, atom, hsigns, hatom⟩ := a
  · rintro rfl
    cases kind with
    | keyword word => cases word <;> cases hatom
    | _ => cases hatom
  · exact nofun

theorem treeOf_ne_null (first : Operand) (ls : List Link) : treeOf first ls ≠ .literal .null := by
  cases ls with
  | nil => rw [treeOf]; exact first.expr_ne_null
  | cons l ls => rw [treeOf]; exact nofun

/-! ## Reading chains -/

/-- The symbols of an operand and the links behind it. -/
def symbolsOf (first : Operand) (ls : List Link) : List Symbol :=
  (first.kinds ++ ls.flatMap Link.kinds).map symbolOfKind

theorem symbolsOf_append (first : Operand) (before : List Link) (root : Link) (after : List Link) :
    symbolsOf first (before ++ root :: after) =
      symbolsOf first before ++ root.op.terminals.map Terminal.symbol ++
        symbolsOf root.operand after := by
  have hop : root.op.terminals.map (symbolOfKind ∘ Terminal.kind) =
      root.op.terminals.map Terminal.symbol := by
    cases root.op <;> rfl
  simp [symbolsOf, Link.kinds, ← hop]

theorem symbolsOf_head_ne_not (first : Operand) (ls : List Link) (rest : List Symbol) :
    kindAhead (symbolsOf first ls ++ rest) 0 ≠ .keyword .NOT := by
  rw [symbolsOf, List.map_append, List.append_assoc]
  exact first.head_ne_not _

/-- A binary operator is read with the operand behind it. -/
theorem reads_infixForm_binary (left : Expr) {op : BinaryOp} {right : Expr} {ss : List Symbol}
    (hnull : right ≠ .literal .null) (hnot : kindAhead ss 0 ≠ .keyword .NOT)
    (h : Reads (operandOf (op.power + 1)) ss right rest) :
    Reads (infixForm left (op.power + 1)) (op.terminals.map Terminal.symbol ++ ss)
      (.binary left op right) rest := by
  by_cases his : op = .is
  · subst his
    exact Expr.reads_is false hnull (fun _ => hnot) h
  · by_cases hisNot : op = .isNot
    · subst hisNot
      exact Expr.reads_is true hnull nofun h
    · obtain ⟨s, hs, -, hform, -⟩ := BinaryOp.single his hisNot
      rw [hs, List.singleton_append]
      exact Expr.reads_infixForm false _ hform (reads_bind h (reads_pure _ _))

theorem infixAhead_operator (op : BinaryOp) (ss : List Symbol) :
    infixAhead (op.terminals.map Terminal.symbol ++ ss) = some op.power := by
  cases op <;> exact infixAhead_cons rfl (by simp)

theorem endsAtom_operator (op : BinaryOp) (ss : List Symbol) :
    EndsAtom (op.terminals.map Terminal.symbol ++ ss) := by
  cases op <;> exact ⟨by simp [BinaryOp.terminals], by simp [BinaryOp.terminals]⟩

/-- An operand starts with a chain whose operators all bind strongly enough, if the loop goes on
behind its tree; what stands behind is no operator that would be drawn into the chain. The induction
is on the length of the chain: before its root the loop goes on with the root, and behind the root
it is handed a greater power. -/
theorem reads_chain (n : Nat) : ∀ (first : Operand) (ls : List Link), ls.length ≤ n →
    ∀ (least : Nat) (rest : List Symbol) (v : Expr) (r : List Symbol),
      (∀ l ∈ ls, least ≤ l.op.power) →
      (∀ q, infixAhead rest = some q → ∀ l ∈ ls, q ≤ l.op.power) → EndsAtom rest →
      Reads (iterate (extend least) (treeOf first ls)) rest v r →
        Reads (operand least) (symbolsOf first ls ++ rest) v r := by
  induction n with
  | zero =>
    intro first ls hn least rest v r _ _ hends hloop
    obtain rfl : ls = [] := List.eq_nil_of_length_eq_zero (by omega)
    rw [treeOf] at hloop
    rw [symbolsOf, List.flatMap_nil, List.append_nil]
    exact reads_operand_of_signs first.atom_eq hends first.signs first.ne_not least hloop
  | succ n ih =>
    intro first ls hn least rest v r hleast hahead hends hloop
    cases ls with
    | nil => exact ih first [] (by simp) least rest v r hleast hahead hends hloop
    | cons l ls =>
      have hlength := (part_parts l ls).length
      obtain ⟨hparted, hbefore, hafter⟩ := part_parts l ls
      rw [treeOf] at hloop
      -- from here on only the parts of the chain count
      generalize part l ls = p at hlength hparted hbefore hafter hloop
      obtain ⟨before, root, after⟩ := p
      dsimp only at hlength hparted hbefore hafter hloop
      rw [List.length_cons] at hlength hn
      rw [← hparted] at hleast hahead ⊢
      have hroot : root ∈ before ++ root :: after := by simp
      have hright : Reads (operandOf (root.op.power + 1))
          (symbolsOf root.operand after ++ rest) (treeOf root.operand after) rest := by
        refine reads_goal (ih root.operand after (by omega) (root.op.power + 1) rest _ rest
          (fun l' hl' => hafter l' hl') (fun q hq l' hl' => ?_) hends
          (reads_loop_stop fun q hq => ?_))
        · exact hahead q hq l' (by simp [hl'])
        · have := hahead q hq root hroot
          omega
      have hform := reads_infixForm_binary (treeOf first before) (treeOf_ne_null _ _)
        (symbolsOf_head_ne_not root.operand after rest) hright
      rw [symbolsOf_append, List.append_assoc, List.append_assoc]
      refine ih first before (by omega) least _ v r (fun l' hl' => hleast l' (by simp [hl']))
        (fun q hq l' hl' => ?_) (endsAtom_operator _ _) ?_
      · rw [infixAhead_operator] at hq
        cases hq
        exact hbefore l' hl'
      · refine reads_loop_step (infixAhead_operator _ _) (hleast root hroot) hform ?_ hloop
        have hoperand : 0 < (symbolsOf root.operand after).length := by
          rw [symbolsOf, List.length_map, List.length_append, Operand.kinds, List.length_append,
            List.length_singleton]
          omega
        simp only [List.length_append]
        omega

/-- A text of the tokens of a chain (`Chain.kinds`) is read as `Chain.tree`. -/
theorem readAs_tree (chain : Chain) {text : String} {tokens : List Token}
    (htokens : tokenize text = .ok tokens)
    (hkinds : tokens.map Token.kind = chain.kinds ++ [.eof]) :
    Rule.ReadAs .expr text chain.tree := by
  obtain ⟨ss, hlexes, hsymbols⟩ := lexes_of_tokenize htokens
  rw [symbols_of_kinds hkinds] at hsymbols
  obtain rfl : chain.kinds.map symbolOfKind = ss := List.append_cancel_right hsymbols
  -- behind the chain stands the end of the input, which is no operator
  have hnone : ∀ q, infixAhead [] ≠ some q := nofun
  have hoperand := reads_chain _ chain.first chain.links (Nat.le_refl _) 0 [] _ []
    (fun _ _ => Nat.zero_le _) (fun q hq => absurd hq (hnone q)) ⟨by simp, by simp⟩
    (reads_loop_stop fun q hq => absurd hq (hnone q))
  rw [List.append_nil] at hoperand
  have hexpr : Reads (Grammar.rule .expr) (symbolsOf chain.first chain.links) chain.tree [] :=
    reads_goal (g := Goal.operand 0) hoperand
  exact parseRule_of_reads hlexes (reads_bind (reads_goal (g := Goal.rule .expr) hexpr)
    (reads_bind reads_expectEnd (reads_pure _ _)))

/-- The chain of `~a - 1 - ? IS NOT b * 2 <> 'c'`. -/
def mixedChain : Chain where
  first := ⟨[.bitNot], .identifier "a", _, by decide, rfl⟩
  links :=
    [⟨.sub, [], .number "1", _, by decide, rfl⟩, ⟨.sub, [], .parameter "?", _, by decide, rfl⟩,
      ⟨.isNot, [], .identifier "b", _, by decide, rfl⟩, ⟨.mul, [], .number "2", _, by decide, rfl⟩,
      ⟨.notEq, [], .string "c", _, by decide, rfl⟩]

theorem mixedChain_tree : mixedChain.tree =
    .binary
      (.binary
        (.binary (.binary (.unary .bitNot (.column none none "a")) .sub (.literal (.number "1")))
          .sub (.parameter "?"))
        .isNot (.binary (.column none none "b") .mul (.literal (.number "2"))))
      .notEq (.literal (.string "c")) := by
  simp [mixedChain, tree, treeOf, part, BinaryOp.power, equalityPower, Operand.expr]

/-- Of two operators of equal power the one on the right is the root, and both of the differences
stand on the left. -/
theorem readAs_tree_mixed : ∃ tokens, tokenize "~a - 1 - ? IS NOT b * 2 <> 'c'" = .ok tokens ∧
    tokens.map Token.kind = mixedChain.kinds ++ [.eof] ∧
    Rule.ReadAs .expr "~a - 1 - ? IS NOT b * 2 <> 'c'"
      (.binary
        (.binary
          (.binary (.binary (.unary .bitNot (.column none none "a")) .sub (.literal (.number "1")))
            .sub (.parameter "?"))
          .isNot (.binary (.column none none "b") .mul (.literal (.number "2"))))
        .notEq (.literal (.string "c"))) := by
  let tokens : List Token :=
    [⟨.operator .bitNot, "~", ⟨0, 1⟩⟩, ⟨.identifier "a", "a", ⟨1, 2⟩⟩,
      ⟨.operator .minus, "-", ⟨3, 4⟩⟩, ⟨.number "1", "1", ⟨5, 6⟩⟩,
      ⟨.operator .minus, "-", ⟨7, 8⟩⟩, ⟨.parameter "?", "?", ⟨9, 10⟩⟩,
      ⟨.keyword .IS, "IS", ⟨11, 13⟩⟩, ⟨.keyword .NOT, "NOT", ⟨14, 17⟩⟩,
      ⟨.identifier "b", "b", ⟨18, 19⟩⟩, ⟨.operator .star, "*", ⟨20, 21⟩⟩,
      ⟨.number "2", "2", ⟨22, 23⟩⟩, ⟨.operator .notEq, "<>", ⟨24, 26⟩⟩,
      ⟨.string "c", "'c'", ⟨27, 30⟩⟩, .eof 30]
  have htokens : tokenize "~a - 1 - ? IS NOT b * 2 <> 'c'" = .ok tokens :=
    ok_of_toOption (by decide)
  have hkinds : tokens.map Token.kind = mixedChain.kinds ++ [.eof] := by decide
  rw [← mixedChain_tree]
  exact ⟨tokens, htokens, hkinds, readAs_tree mixedChain htokens hkinds⟩

end Chain

end SqlGrammar
