import SqlGrammar.Proofs.Parsed.Statement

/-!
# Canonical texts

The canonical text of a tree is read as the tree with the parentheses that it is written with. For a
tree that was itself parsed from a text, these are no more than the parentheses around each test
that stands before an operator which binds more strongly (`Rule.parse_toSql_of_parsed`); a statement
is read back exactly if and only if there is no such test in it (`Statement.readAs_canonical_iff`).
For trees that were put together by hand it takes what `Expr.parse_toSql_of_unambiguous` and
`Statement.parse_toSql_of_plain` demand.
-/

set_option autoImplicit false

namespace SqlGrammar

open Lexer

/-- A text is read as a tree, given enough levels. -/
def Rule.ReadAs (r : Rule) (text : String) (tree : r.Tree) : Prop :=
  ∃ need, ∀ depth, need ≤ depth → parseRule r text depth = .ok tree

/-- A text is read as one tree at most. -/
theorem Rule.ReadAs.unique {r : Rule} {text : String} {tree tree' : r.Tree}
    (h : r.ReadAs text tree) (h' : r.ReadAs text tree') : tree = tree' := by
  obtain ⟨need, h⟩ := h
  obtain ⟨need', h'⟩ := h'
  -- at a depth that serves both, the two readings are the same
  have hsame := (h (max need need') (Nat.le_max_left _ _)).symm.trans
    (h' (max need need') (Nat.le_max_right _ _))
  exact Except.ok.inj hsame

/-! ## Trees from texts -/

section Parsed

variable {r : Rule} {text : String} {depth : Nat} {tree : r.Tree}

/-- The canonical text of a tree from a text is read as that tree with its leading tests guarded. -/
theorem readAs_guard_of_parseRule (h : parseRule r text depth = .ok tree) :
    r.ReadAs (r.toSql tree) (r.regroup .guard tree) := by
  have hwf : r.WellFormed Phrase.Parsed tree := wellFormed_of_parseRule h
  rw [Rule.regroup_guard (fun _ hp => hp.2) hwf]
  exact parseRule_toSql (hwf.mono fun _ hp => hp.1)

theorem toSql_guard_of_parseRule (h : parseRule r text depth = .ok tree) :
    r.toSql (r.regroup .guard tree) = r.toSql tree := by
  rw [Rule.regroup_guard (fun _ hp => hp.2) (wellFormed_of_parseRule h)]
  exact Rule.toSql_regroup r tree

/-- Whatever text a tree came from, `toSql` of it is read as `regroup .guard` of it: the same tree
with parentheses around each test (`Expr.isTest`) before an operator that binds more strongly. That
tree is written as the very same text. -/
theorem Rule.parse_toSql_of_parsed (h : parseRule r text depth = .ok tree) :
    r.ReadAs (r.toSql tree) (r.regroup .guard tree) ∧
      r.toSql (r.regroup .guard tree) = r.toSql tree :=
  ⟨readAs_guard_of_parseRule h, toSql_guard_of_parseRule h⟩

/-- A text is read back exactly if and only if no test in it needs to be guarded. -/
theorem Rule.exact_iff_no_guard (h : parseRule r text depth = .ok tree) :
    r.ReadAs (r.toSql tree) tree ↔ r.regroup .guard tree = tree := by
  have hguard := readAs_guard_of_parseRule h
  constructor
  · intro hexact
    exact hguard.unique hexact
  · intro hsame
    rw [hsame] at hguard
    exact hguard

end Parsed

/-- A test for null before a sum, as it can be written with a trailing operator. -/
def testBeforeSum : Expr :=
  .binary (.isNull (.column none none "a") false) .add (.literal (.number "1"))

theorem parse_toSql_of_parsed_test :
    parseRule .expr "a ISNULL + 1" 200 = .ok testBeforeSum ∧
      Rule.ReadAs .expr (Rule.toSql .expr testBeforeSum)
        (.binary (.paren (.isNull (.column none none "a") false)) .add (.literal (.number "1"))) ∧
      Rule.toSql .expr testBeforeSum = "(a IS NULL) + 1" := by
  have hparse : parseRule .expr "a ISNULL + 1" 200 = .ok testBeforeSum :=
    ok_of_toOption (by decide +kernel)
  exact ⟨hparse, (Rule.parse_toSql_of_parsed hparse).1, by decide⟩

/-- Not every statement is read back exactly: a test before a sum comes back in parentheses. -/
theorem not_exact_test_before_sum : ∃ statement,
    parseStatement "SELECT a ISNULL + 1" = .ok statement ∧
      Rule.toSql .statement statement = "SELECT (a IS NULL) + 1" ∧
      ¬ Rule.ReadAs .statement (Rule.toSql .statement statement) statement := by
  let query : Select := { Select.empty with columns := [.expr testBeforeSum none] }
  have hparse : parseStatement "SELECT a ISNULL + 1" = .ok (.select query) :=
    ok_of_toOption (by decide +kernel)
  refine ⟨.select query, hparse, by decide, ?_⟩
  rw [Rule.exact_iff_no_guard hparse]
  decide

/-- The canonical text of a parsed statement is read as `statement.regroup .guard` and as no other
tree. The statement itself is read if and only if it is the same, which it is where no test stands
before an operator that binds more strongly. -/
theorem Statement.readAs_canonical_iff {text : String} {statement : Statement}
    (h : parseStatement text = .ok statement) :
    (∀ tree, Rule.ReadAs .statement (Rule.toSql .statement statement) tree ↔
        tree = statement.regroup .guard) ∧
      (Rule.ReadAs .statement (Rule.toSql .statement statement) statement ↔
        statement.regroup .guard = statement) := by
  have hguard : Rule.ReadAs .statement (Rule.toSql .statement statement)
      (statement.regroup .guard) := readAs_guard_of_parseRule h
  constructor
  · intro tree
    constructor
    · intro htree
      exact htree.unique hguard
    · rintro rfl
      exact hguard
  · exact Rule.exact_iff_no_guard h

/-- `a NOTNULL COLLATE c OR b ISNULL LIKE d`, where one test stands before an operator that binds
more strongly, and the other before one that does not. -/
def testsBeforeOperators (grouped : Expr → Expr) : Expr :=
  .binary (.collate (grouped (.isNull (.column none none "a") true)) "c") .or
    (.like (.isNull (.column none none "b") false) .like (.column none none "d") none false)

theorem Statement.readAs_canonical_iff_tests :
    parseStatement "DELETE FROM t WHERE a NOTNULL COLLATE c OR b ISNULL LIKE d" =
        .ok (.delete ⟨.bare "t", some (testsBeforeOperators id)⟩) ∧
      Rule.ReadAs .statement
        (Rule.toSql .statement (.delete ⟨.bare "t", some (testsBeforeOperators id)⟩))
        (.delete ⟨.bare "t", some (testsBeforeOperators .paren)⟩) ∧
      ¬ Rule.ReadAs .statement
        (Rule.toSql .statement (.delete ⟨.bare "t", some (testsBeforeOperators id)⟩))
        (.delete ⟨.bare "t", some (testsBeforeOperators id)⟩) := by
  have hparse : parseStatement "DELETE FROM t WHERE a NOTNULL COLLATE c OR b ISNULL LIKE d" =
      .ok (.delete ⟨.bare "t", some (testsBeforeOperators id)⟩) :=
    ok_of_toOption (by decide +kernel)
  obtain ⟨hone, hexact⟩ := Statement.readAs_canonical_iff hparse
  refine ⟨hparse, (hone _).2 rfl, ?_⟩
  rw [hexact]
  decide

/-! ## Trees put together by hand -/

/-- A well-formed expression with `Phrase.Unambiguous`, in which no operator can turn into another,
is read from its text as `e.regroup .written`: with parentheses around some operands and otherwise
unchanged. -/
theorem Expr.parse_toSql_of_unambiguous {e : Expr} (h : e.WellFormed Phrase.Unambiguous) :
    Rule.ReadAs .expr (Rule.toSql .expr e) (e.regroup .written) :=
  parseRule_toSql (r := .expr) h

/-- `a NOT LIKE b OR 1 ESCAPE 'x'`, where the pattern is the disjunction. -/
def escapedDisjunction : Expr :=
  .like (.column none none "a") .like
    (.binary (.column none none "b") .or (.literal (.number "1")))
    (some (.literal (.string "x"))) true

theorem escapedDisjunction_wellFormed : escapedDisjunction.WellFormed Phrase.Unambiguous := by
  have hcolumn : ∀ own, (Phrase.expr (.column none none own)).WellFormed Phrase.Unambiguous :=
    fun own => .leaf nofun trivial rfl
  have hnumber : (Phrase.expr (.literal (.number "1"))).WellFormed Phrase.Unambiguous :=
    .leaf (show IsToken (.number "1") "1" by decide) trivial rfl
  have hstring : (Phrase.expr (.literal (.string "x"))).WellFormed Phrase.Unambiguous :=
    .leaf trivial trivial rfl
  have hpattern : (Phrase.expr (.binary (.column none none "b") .or
      (.literal (.number "1")))).WellFormed Phrase.Unambiguous :=
    .intro ⟨trivial, trivial⟩ (List.forall_mem_cons.2 ⟨hcolumn "b",
      List.forall_mem_cons.2 ⟨hnumber, nofun⟩⟩)
  exact .intro ⟨trivial, rfl⟩ (List.forall_mem_cons.2 ⟨hcolumn "a",
    List.forall_mem_cons.2 ⟨hpattern, List.forall_mem_cons.2 ⟨hstring, nofun⟩⟩⟩)

theorem parse_toSql_of_unambiguous_escape :
    escapedDisjunction.WellFormed Phrase.Unambiguous ∧
      Rule.ReadAs .expr (Rule.toSql .expr escapedDisjunction)
        (.like (.column none none "a") .like
          (.paren (.binary (.column none none "b") .or (.literal (.number "1"))))
          (some (.literal (.string "x"))) true) :=
  ⟨escapedDisjunction_wellFormed, Expr.parse_toSql_of_unambiguous escapedDisjunction_wellFormed⟩

/-- A well-formed statement with `Phrase.Plain`, so without comparisons by `IS` and without escapes,
is read from its text as `statement.regroup .written`: with parentheses around some operands and
otherwise unchanged. -/
theorem Statement.parse_toSql_of_plain {statement : Statement}
    (h : statement.WellFormed Phrase.Plain) :
    Rule.ReadAs .statement (Rule.toSql .statement statement) (statement.regroup .written) :=
  parseRule_toSql (r := .statement) (h.mono fun _ hp => hp.unambiguous)

/-- `DELETE FROM "select" WHERE (a IS NULL) + 1`. -/
def deletionByTest : Delete := ⟨⟨none, "select"⟩, some testBeforeSum⟩

theorem deletionByTest_wellFormed : (Statement.delete deletionByTest).WellFormed Phrase.Plain := by
  have hcolumn : (Phrase.expr (.column none none "a")).WellFormed Phrase.Plain :=
    .leaf nofun trivial rfl
  have htest : (Phrase.expr (.isNull (.column none none "a") false)).WellFormed Phrase.Plain :=
    .single trivial trivial rfl hcolumn
  have hnumber : (Phrase.expr (.literal (.number "1"))).WellFormed Phrase.Plain :=
    .leaf (show IsToken (.number "1") "1" by decide) trivial rfl
  rintro e ⟨⟩
  exact .intro ⟨trivial, nofun, nofun⟩ (List.forall_mem_cons.2 ⟨htest,
    List.forall_mem_cons.2 ⟨hnumber, nofun⟩⟩)

theorem parse_toSql_of_plain_deletion :
    (Statement.delete deletionByTest).WellFormed Phrase.Plain ∧
      Rule.ReadAs .statement (Rule.toSql .statement (.delete deletionByTest))
        (.delete ⟨⟨none, "select"⟩, some (.binary (.paren (.isNull (.column none none "a") false))
          .add (.literal (.number "1")))⟩) :=
  ⟨deletionByTest_wellFormed, Statement.parse_toSql_of_plain deletionByTest_wellFormed⟩

end SqlGrammar
