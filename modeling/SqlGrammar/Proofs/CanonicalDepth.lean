import Mathlib.Data.Nat.Find
import SqlGrammar.Proofs.Canonical
import SqlGrammar.Proofs.Depth
import SqlGrammar.Proofs.Lexer.Reformat
import SqlGrammar.Proofs.Reading.Within

/-!
# The depth of canonical texts

A tree that was read from a text is read from its canonical text too, but not always with as many
levels. There is a number of levels from which on the canonical text is read, and below which it is
refused for its depth (`canonical_depth`). It is not bounded by the number of levels that served for
the text the tree came from: tests for null with trailing operators are read with three levels,
however long they are, while their canonical text opens a parenthesis for each of them
(`canonical_depth_unbounded`).
-/

set_option autoImplicit false

namespace SqlGrammar

open SqlGrammar.Parser Grammar Lexer

/-! ## The levels of a canonical text -/

/-- From some number of levels on, no more than four for each of its tokens and four more, the
canonical text of a tree from a text is read as `r.regroup .guard tree`. Under any smaller limit it
fails, with an error that `IsTooDeep`. -/
theorem canonical_depth {r : Rule} {text : String} {depth : Nat} {tree : r.Tree}
    (h : parseRule r text depth = .ok tree) :
    ∃ need,
      (∀ d, need ≤ d → parseRule r (r.toSql tree) d = .ok (r.regroup .guard tree)) ∧
      (∀ d, d < need → ∃ error, parseRule r (r.toSql tree) d = .error error ∧ error.IsTooDeep) ∧
      ∀ ts last, tokenize (r.toSql tree) = .ok (ts ++ [last]) → need ≤ 4 * ts.length + 4 := by
  classical
  obtain ⟨enough, hread⟩ := readAs_guard_of_parseRule h
  have hok : ∃ d, parseRule r (r.toSql tree) d = .ok (r.regroup .guard tree) :=
    ⟨enough, hread enough (Nat.le_refl enough)⟩
  have hneed := Nat.find_spec hok
  refine ⟨Nat.find hok, fun d hd => ?_, fun d hd => ?_, fun ts last hts => ?_⟩
  · have hshallow : ∀ error, parseRule r (r.toSql tree) (Nat.find hok) = .error error →
        ¬ error.IsTooDeep := by
      rw [hneed]
      exact nofun
    rw [parseRule_eq_of_le hd hshallow, hneed]
  · exact (parseRule_ok_or_isTooDeep hneed d).resolve_left (Nat.find_min hok hd)
  · refine Nat.find_min' hok ((parseRule_ok_or_isTooDeep hneed _).resolve_right ?_)
    rintro ⟨error, herror, hdeep⟩
    exact not_isTooDeep_of_le hts (Nat.le_refl _) error herror hdeep

theorem parseRule_trailingTest :
    parseRule .expr "a ISNULL" 2 = .ok (.isNull (.column none none "a") false) :=
  ok_of_toOption (by decide +kernel)

theorem canonical_depth_trailingTest :
    parseRule .expr "a ISNULL" 2 = .ok (.isNull (.column none none "a") false) ∧
      ∃ need,
        (∀ d, need ≤ d →
          parseRule .expr "a IS NULL" d = .ok (.isNull (.column none none "a") false)) ∧
        (∀ d, d < need → ∃ error, parseRule .expr "a IS NULL" d = .error error ∧
          error.IsTooDeep) ∧
        ∀ ts last, tokenize "a IS NULL" = .ok (ts ++ [last]) → need ≤ 4 * ts.length + 4 := by
  have htext : Rule.toSql .expr (.isNull (.column none none "a") false) = "a IS NULL" := by
    decide
  have hdepth := canonical_depth parseRule_trailingTest
  rw [htext] at hdepth
  exact ⟨parseRule_trailingTest, hdepth⟩

/-- Two levels are enough for `a ISNULL`, and not for its canonical text. -/
theorem canonical_too_deep :
    parseRule .expr "a ISNULL" 2 = .ok (.isNull (.column none none "a") false) ∧
      Rule.toSql .expr (.isNull (.column none none "a") false) = "a IS NULL" ∧
      parseRule .expr "a IS NULL" 2 = .error (.tooDeep 2 ⟨5, 9⟩) :=
  ⟨parseRule_trailingTest, by decide, error_of_failure? (by decide +kernel)⟩

/-! ## Leading parentheses -/

section Parentheses

variable {limit room : Nat} {c c' : Cursor} {input mid : List Symbol}

/-- What is done behind a part that opens no level. -/
theorem exists_of_run_bind_of_reads {α β : Type} {p : Production α} {f : α → Production β} {v : α}
    {w : β} (hflat : p.Flat) (hp : Reads p input v mid) (hc : c.symbols = input)
    (h : (p >>= f).run productions limit room β c = .done w c') :
    ∃ c₁, c₁.symbols = mid ∧ (f v).run productions limit room β c₁ = .done w c' := by
  have hwithin : ReadsWithin productions 0 p input v mid := readsWithin_of_flat hflat hp
  obtain ⟨c₁, hfirst, hc₁⟩ := hwithin limit room (Nat.zero_le room) c hc
  rw [run_bind_of_done hfirst] at h
  exact ⟨c₁, hc₁, h⟩

/-- A goal that is reached has taken a level. -/
theorem exists_of_run_goal {g : Goal} {v : g.Tree}
    (h : (goal g : Production g.Tree).run productions limit room _ c = .done v c') :
    ∃ room', room = room' + 1 ∧ (productions g).run productions limit room' _ c = .done v c' := by
  cases room with
  | zero => cases h
  | succ room' => exact ⟨room', rfl, h⟩

/-- An expression takes two levels, that of its rule and that of its operand. -/
theorem exists_of_run_expr {e : Expr}
    (h : Rule.expr.parse.run productions limit room _ c = .done e c') :
    ∃ room', room = room' + 2 ∧
      (operand 0).run productions limit room' _ c = .done e c' := by
  obtain ⟨room₁, rfl, h⟩ := exists_of_run_goal (g := Goal.rule .expr) h
  obtain ⟨room₂, rfl, h⟩ := exists_of_run_goal (g := Goal.operand 0) h
  exact ⟨room₂, rfl, h⟩

theorem flat_startsQuery : startsQuery.Flat := by
  simp [startsQuery]

/-- What is in parentheses, and is in parentheses again, takes two levels. -/
theorem exists_of_run_operand_paren {least : Nat} {ss : List Symbol} {e : Expr}
    (hc : c.symbols = .operator .leftParen :: .operator .leftParen :: ss)
    (h : (operand least).run productions limit room _ c = .done e c') :
    ∃ room' c₁ c₂ e', room = room' + 2 ∧ c₁.symbols = .operator .leftParen :: ss ∧
      (operand 0).run productions limit room' _ c₁ = .done e' c₂ := by
  obtain ⟨head, _, hhead, -⟩ := exists_of_run_bind h
  -- the head is a primary expression, which starts with the first parenthesis
  obtain ⟨c₁, hc₁, hprimary⟩ := exists_of_run_bind_of_reads flat_kind (reads_kind _) hc hhead
  obtain ⟨c₂, hc₂, hprimary⟩ := exists_of_run_bind_of_reads flat_kind (reads_kind _) hc₁ hprimary
  obtain ⟨c₃, hc₃, hparens⟩ :=
    exists_of_run_bind_of_reads (flat_isNext _) (reads_isNext _ _) hc₂ hprimary
  obtain ⟨c₄, hc₄, hbody⟩ :=
    exists_of_run_bind_of_reads (flat_expect _) (reads_expect rfl) hc₃ hparens
  obtain ⟨inner, _, hbody, -⟩ := exists_of_run_bind hbody
  -- behind it stands another one, hence no query
  obtain ⟨c₆, hc₆, hexpr⟩ :=
    exists_of_run_bind_of_reads flat_startsQuery (reads_startsQuery_false rfl) hc₄ hbody
  obtain ⟨inner', c₇, hexpr, -⟩ := exists_of_run_bind hexpr
  obtain ⟨room', hroom, hoperand⟩ := exists_of_run_expr hexpr
  exact ⟨room', c₆, c₇, inner', hroom, hc₆, hoperand⟩

/-- Each leading parenthesis but the last one takes two levels. -/
theorem levels_of_parens (n : Nat) {least : Nat} {ss : List Symbol} {e : Expr}
    (hc : c.symbols = List.replicate (n + 1) (.operator .leftParen) ++ ss)
    (h : (operand least).run productions limit room _ c = .done e c') : 2 * n ≤ room := by
  induction n generalizing room c c' least e with
  | zero => exact Nat.zero_le room
  | succ n ih =>
    obtain ⟨room', c₁, c₂, e', rfl, hc₁, hoperand⟩ := exists_of_run_operand_paren hc h
    have hle := ih hc₁ hoperand
    omega

/-- A text that starts with parentheses is read as an expression only with two levels for each of
them. -/
theorem levels_of_leading_parens {text : String} {ss : List Symbol} {n depth : Nat} {e : Expr}
    (htext : Lexes text.toList (List.replicate (n + 1) (.operator .leftParen) ++ ss))
    (h : parseRule .expr text depth = .ok e) : 2 * (n + 1) ≤ depth := by
  obtain ⟨ts, hts, hsymbols⟩ := tokenize_of_lexes htext
  have hofText : Cursor.ofText text = .ok (.ofTokens ts) := by
    rw [Cursor.ofText, hts]
    rfl
  rw [parseRule_of_ofText hofText] at h
  cases hrun : Grammar.run depth (whole .expr) (.ofTokens ts) with
  | failed error c =>
    rw [hrun] at h
    cases h
  | done tree c =>
    obtain ⟨e', c₁, hexpr, -⟩ := exists_of_run_bind (P := productions) hrun
    obtain ⟨room, hroom, hoperand⟩ := exists_of_run_expr hexpr
    have hle := levels_of_parens n (Cursor.symbols_ofTokens hsymbols) hoperand
    omega

end Parentheses

/-! ## Tests with trailing operators -/

/-- A column, tested for null with a number added to the test, as often as is said. -/
def testSum : Nat → Expr
  | 0 => .column none none "a"
  | n + 1 => .binary (.isNull (testSum n) false) .add (.literal (.number "1"))

/-- The symbols of the tests and sums where every test is written with a trailing operator. -/
def testSymbols (n : Nat) : List Symbol :=
  (List.replicate n [Symbol.keyword .ISNULL, .operator .plus, .leaf (.number "1")]).flatten

theorem testSymbols_succ (n : Nat) :
    testSymbols (n + 1) =
      .keyword .ISNULL :: .operator .plus :: .leaf (.number "1") :: testSymbols n := rfl

/-- The words of such a text: `a ISNULL + 1 ISNULL + 1` and so on. -/
def testWords (n : Nat) : List (TokenKind × String) :=
  (.identifier "a", "a") :: (List.replicate n
    [(.keyword .ISNULL, "ISNULL"), (.operator .plus, "+"), (.number "1", "1")]).flatten

theorem alone_testWords (n : Nat) : ∀ w ∈ testWords n, Alone w.1 w.2.toList := by
  intro w hw
  rcases List.mem_cons.1 hw with rfl | hw
  · exact alone_name (by decide)
  · obtain ⟨round, hround, hw⟩ := List.mem_flatten.1 hw
    rw [List.eq_of_mem_replicate hround] at hw
    simp only [List.mem_cons, List.not_mem_nil, or_false] at hw
    rcases hw with rfl | rfl | rfl
    · exact alone_keyword .ISNULL
    · exact alone_spelling (text_mem_spellings .plus)
    · exact ⟨rfl, '1', [], rfl, rfl⟩

theorem exists_lexes_testSymbols (n : Nat) :
    ∃ text : String, Lexes text.toList (.name "a" :: testSymbols n) := by
  obtain ⟨text, hwords⟩ := exists_text_of_words (alone_testWords n)
  have hsymbols : (testWords n).map wordSymbol = .name "a" :: testSymbols n := by
    rw [testWords, List.map_cons, List.map_flatten, List.map_replicate]
    rfl
  exact ⟨text, hsymbols ▸ hwords.lexes⟩

namespace Grammar

/-- Behind a sum, no operator binds more strongly than a test. -/
theorem infixHere?_testSymbols (n : Nat) : infixHere? 14 (kindAhead (testSymbols n) 0)
    (kindAhead (testSymbols n) 1) = none := by
  cases n <;> rfl

/-- The loop takes test after test, and number after number; only the numbers cost a level. By
induction on how many are ahead. -/
theorem readsWithin_testSymbols (n k : Nat) :
    ReadsWithin productions 1 (iterate (extend 0) (testSum k)) (testSymbols n) (testSum (k + n))
      [] := by
  induction n generalizing k with
  | zero => exact readsWithin_iterate_stop (readsWithin_extend_none rfl)
  | succ n ih =>
    have htest : ReadsWithin productions 1 (extend 0 (testSum k)) (testSymbols (n + 1))
        (some (.isNull (testSum k) false))
        (.operator .plus :: .leaf (.number "1") :: testSymbols n) :=
      readsWithin_extend_some (q := equalityPower) rfl
        (readsWithin_infixForm .isNull rfl nofun (readsWithin_pure _ _))
    have hnumber : ReadsWithin productions 1 (operandOf 14)
        (.leaf (.number "1") :: testSymbols n) (.literal (.number "1")) (testSymbols n) :=
      readsWithin_goal (g := Goal.operand 14) (readsWithin_operand rfl (readsWithin_number "1")
        (readsWithin_iterate_stop (readsWithin_extend_none (infixHere?_testSymbols n))))
    have hsum : ReadsWithin productions 1 (extend 0 (.isNull (testSum k) false))
        (.operator .plus :: .leaf (.number "1") :: testSymbols n) (some (testSum (k + 1)))
        (testSymbols n) :=
      readsWithin_extend_some (q := BinaryOp.power .add) rfl
        (readsWithin_infixForm (.binary .add) rfl nofun
          (readsWithin_bind hnumber (readsWithin_pure _ _)))
    have hmore := ih (k + 1)
    rw [Nat.add_right_comm] at hmore
    refine readsWithin_iterate_step htest ?_ (readsWithin_iterate_step hsum ?_ hmore)
    · rw [testSymbols_succ]
      exact Nat.lt_succ_self _
    · exact Nat.lt_succ_of_lt (Nat.lt_succ_self _)

/-- The levels are those of the rule, of its operand and of the numbers. -/
theorem readsWithin_testSum (n : Nat) :
    ReadsWithin productions 3 (whole .expr) (.name "a" :: testSymbols n) (testSum n) [] := by
  have hname : ReadsWithin productions 1 primary (.name "a" :: testSymbols n) (testSum 0)
      (testSymbols n) := by
    cases n <;> exact readsWithin_name nofun nofun
  have hloop := readsWithin_testSymbols n 0
  rw [Nat.zero_add] at hloop
  exact readsWithin_whole (r := .expr) (readsWithin_goal (g := Goal.operand 0)
    (readsWithin_operand rfl hname hloop))

end Grammar

/-! ## Their canonical texts -/

theorem fitsLeft_testSum (n : Nat) : (testSum n).fitsLeft equalityPower = true := by
  cases n <;> rfl

/-- A test in front of a sum is written in parentheses. -/
theorem symbols_testSum (n : Nat) : ∃ ss, Pieces.symbols (testSum n).pieces =
    List.replicate n (.operator .leftParen) ++ ss := by
  induction n with
  | zero => exact ⟨_, rfl⟩
  | succ n ih =>
    obtain ⟨ss, hss⟩ := ih
    have hleft : (Expr.isNull (testSum n) false).leftPieces (BinaryOp.power .add) =
        Pieces.inParens ((testSum n).pieces ++ [.keyword .IS, .keyword .NULL]) := by
      rw [Expr.leftPieces, show (Expr.isNull (testSum n) false).fitsLeft (BinaryOp.power .add) =
        false from rfl, Expr.pieces_isNull, Expr.leftPieces, fitsLeft_testSum]
      simp [parensUnless, Pieces.flag]
    rw [testSum, Expr.pieces_binary, hleft]
    simp only [Pieces.symbols_append, Pieces.symbols_inParens, hss, List.replicate_succ,
      List.cons_append, List.append_assoc]
    exact ⟨_, rfl⟩

/-- No number of levels is enough for the canonical texts of all that is read with three levels. -/
theorem canonical_depth_unbounded (levels : Nat) :
    ∃ text tree, parseRule .expr text 3 = .ok tree ∧
      ∀ depth, depth ≤ levels → ∃ error,
        parseRule .expr (Rule.toSql .expr tree) depth = .error error ∧ error.IsTooDeep := by
  obtain ⟨text, htext⟩ := exists_lexes_testSymbols (levels + 1)
  have hparse : parseRule .expr text 3 = .ok (testSum (levels + 1)) :=
    parseRule_of_readsWithin htext (readsWithin_testSum (levels + 1)) (Nat.le_refl 3)
  refine ⟨text, _, hparse, fun depth hdepth => ?_⟩
  obtain ⟨need, hread⟩ := readAs_guard_of_parseRule hparse
  -- what is left is that the canonical text cannot be read with so few levels
  refine (parseRule_ok_or_isTooDeep (hread need (Nat.le_refl need)) depth).resolve_left ?_
  intro hok
  obtain ⟨ss, hss⟩ := symbols_testSum (levels + 1)
  have hlexes := Rule.lexes_toSql (r := .expr)
    ((wellFormed_of_parseRule hparse).mono fun _ hp => hp.1)
  have hlevels := levels_of_leading_parens (hss ▸ hlexes) hok
  omega

end SqlGrammar
