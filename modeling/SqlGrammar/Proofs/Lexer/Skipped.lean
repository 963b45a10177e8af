import SqlGrammar.Proofs.Lexer.Alone

/-!
# What is skipped between tokens

`Skipped last cs` describes a gap by what it is made of, and not by how it is found: blanks, line
comments and block comments, each of which is closed unless the text ends behind the gap. What the
lexer takes for a gap is one (`skipped_splitGap`), and a gap with all its comments closed is taken
for a gap wherever it stands (`splitGap_append_of_skipped`).
-/

set_option autoImplicit false

namespace SqlGrammar.Lexer

open Text

/-- Blanks and comments: from two hyphens to the next newline, and from a slash and star to the
first star and slash behind them. If the text ends behind the gap, which `last` says, its last
comment may be left open. -/
inductive Skipped (last : Bool) : List Char → Prop
  | nil : Skipped last []
  | blank {c : Char} {cs : List Char} :
      isBlank c = true → Skipped last cs → Skipped last (c :: cs)
  | line {body cs : List Char} :
      '\n' ∉ body → Skipped last cs → Skipped last ('-' :: '-' :: (body ++ '\n' :: cs))
  | block {body cs : List Char} :
      ¬ ['*', '/'] <:+: body → Skipped last cs →
        Skipped last ('/' :: '*' :: (body ++ '*' :: '/' :: cs))
  | openLine {body : List Char} :
      last = true → '\n' ∉ body → Skipped last ('-' :: '-' :: body)
  | openBlock {body : List Char} :
      last = true → ¬ ['*', '/'] <:+: body → Skipped last ('/' :: '*' :: body)

theorem ne_of_isBlank {c d : Char} (h : isBlank c = true) (hd : isBlank d = false) : c ≠ d := by
  rintro rfl
  rw [h] at hd
  cases hd

/-! ## What the lexer skips is a gap -/

section Found

variable {last : Bool} {c : Char} {cs : List Char}

/-- A line comment goes on with any character but a newline. -/
theorem Skipped.line_cons (hc : c ≠ '\n') (h : Skipped last ('-' :: '-' :: cs)) :
    Skipped last ('-' :: '-' :: c :: cs) := by
  have hmem : ∀ body : List Char, '\n' ∉ body → '\n' ∉ c :: body := by
    intro body hbody hnewline
    rcases List.mem_cons.1 hnewline with rfl | hnewline
    · exact hc rfl
    · exact hbody hnewline
  cases h with
  | blank hblank _ => exact absurd rfl (ne_of_isBlank hblank (d := '-') (by decide))
  | line hbody hrest => exact .line (hmem _ hbody) hrest
  | openLine hlast hbody => exact .openLine hlast (hmem _ hbody)

/-- A block comment goes on with any character but a star in front of a slash. -/
theorem Skipped.block_cons (hc : ¬ (c = '*' ∧ cs.head? = some '/'))
    (h : Skipped last ('/' :: '*' :: cs)) : Skipped last ('/' :: '*' :: c :: cs) := by
  -- the longer body is closed at its front, or where the body is
  have hfirst : ∀ body : List Char, (body = [] ∨ body.head? = cs.head?) →
      ¬ ['*', '/'] <:+: body → ¬ ['*', '/'] <:+: c :: body := by
    intro body hhead hbody hfound
    rcases List.infix_cons_iff.1 hfound with hprefix | hfound
    · obtain ⟨hstar, hslash⟩ := List.cons_prefix_cons.1 hprefix
      obtain ⟨rest, rfl⟩ := hslash
      rcases hhead with hnil | hhead
      · cases hnil
      · exact hc ⟨hstar.symm, hhead.symm⟩
    · exact hbody hfound
  cases h with
  | blank hblank _ => exact absurd rfl (ne_of_isBlank hblank (d := '/') (by decide))
  | @block body rest hbody hrest =>
    refine @Skipped.block _ (c :: body) rest (hfirst body ?_ hbody) hrest
    cases body with
    | nil => exact .inl rfl
    | cons b body => exact .inr rfl
  | openBlock hlast hbody => exact .openBlock hlast (hfirst _ (.inr rfl) hbody)

end Found

/-- How the characters that open a comment stand in front of what was found inside it. -/
def GapPlace.opening : GapPlace → List Char
  | .between => []
  | .lineComment => ['-', '-']
  | .blockComment => ['/', '*']

/-- What is found from a place on makes up a gap together with what has opened the place. -/
theorem skipped_opening (place : GapPlace) (cs : List Char) :
    Skipped (splitGap place cs).2.isEmpty (place.opening ++ (splitGap place cs).1) := by
  fun_induction splitGap place cs with
  | case1 place =>
    cases place with
    | between => exact .nil
    | lineComment => exact .openLine rfl (by simp)
    | blockComment => exact .openBlock rfl (by simp)
  | case2 cs gap rest heq ih =>
    rw [heq] at ih
    exact ih
  | case3 cs gap rest heq ih =>
    rw [heq] at ih
    exact ih
  | case4 c cs _ _ hblank gap rest heq ih =>
    rw [heq] at ih
    exact .blank hblank ih
  | case5 c cs _ _ _ => exact .nil
  | case6 cs gap rest heq ih =>
    rw [heq] at ih
    exact @Skipped.line _ [] gap List.not_mem_nil ih
  | case7 c cs hnewline gap rest heq ih =>
    rw [heq] at ih
    exact ih.line_cons hnewline
  | case8 cs gap rest heq ih =>
    rw [heq] at ih
    exact @Skipped.block _ [] gap (by simp) ih
  | case9 c cs hclose gap rest heq ih =>
    -- a star and slash here would have been taken for the end of the comment
    have hsplit := splitGap_append .blockComment cs
    rw [heq] at ih hsplit
    refine ih.block_cons ?_
    rintro ⟨hstar, hslash⟩
    obtain ⟨more, rfl⟩ := List.head?_eq_some_iff.1 hslash
    exact hclose _ hstar hsplit.symm

/-- The gap that is found in front of a text is a gap. Only in front of the end of the text does a
comment stay open. -/
theorem skipped_splitGap (cs : List Char) :
    Skipped (splitGap .between cs).2.isEmpty (splitGap .between cs).1 :=
  skipped_opening .between cs

/-! ## A closed gap is skipped -/

/-- A line comment ends at the first newline. -/
theorem splitGap_line {body : List Char} (h : '\n' ∉ body) (rest : List Char) :
    splitGap .lineComment (body ++ '\n' :: rest) =
      (body ++ '\n' :: (splitGap .between rest).1, (splitGap .between rest).2) := by
  induction body with
  | nil => rfl
  | cons c body ih =>
    rw [List.mem_cons, not_or] at h
    obtain ⟨hc, hbody⟩ := h
    rw [List.cons_append, splitGap.eq_def]
    split <;> simp_all

/-- A block comment ends at the first star and slash. -/
theorem splitGap_block {body : List Char} (h : ¬ ['*', '/'] <:+: body) (rest : List Char) :
    splitGap .blockComment (body ++ '*' :: '/' :: rest) =
      (body ++ '*' :: '/' :: (splitGap .between rest).1, (splitGap .between rest).2) := by
  induction body with
  | nil => rfl
  | cons c body ih =>
    have hbody := ih fun hfound => h (List.infix_cons hfound)
    -- a star and slash at the front would be found in the body, which does not start with the slash
    -- that closes the comment
    have hclose : ∀ cs, c = '*' → body ++ '*' :: '/' :: rest ≠ '/' :: cs := by
      rintro cs rfl heq
      cases body with
      | nil => cases heq
      | cons b body =>
        obtain ⟨rfl, -⟩ := List.cons.inj heq
        exact h (List.IsPrefix.isInfix ⟨body, rfl⟩)
    rw [List.cons_append, splitGap.eq_def]
    split <;> simp_all

/-- A gap with all its comments closed is skipped, whatever stands behind it. -/
theorem splitGap_append_of_skipped {gap : List Char} (h : Skipped false gap) (rest : List Char) :
    splitGap .between (gap ++ rest) =
      (gap ++ (splitGap .between rest).1, (splitGap .between rest).2) := by
  induction h with
  | nil => rfl
  | @blank c cs hblank _ ih =>
    have hminus := ne_of_isBlank hblank (d := '-') (by decide)
    have hslash := ne_of_isBlank hblank (d := '/') (by decide)
    rw [List.cons_append, splitGap.eq_def]
    split <;> simp_all
  | @line body cs hbody _ ih =>
    simp only [List.cons_append, List.append_assoc]
    rw [splitGap, splitGap_line hbody, ih]
  | @block body cs hbody _ ih =>
    simp only [List.cons_append, List.append_assoc]
    rw [splitGap, splitGap_block hbody, ih]
  -- a closed gap has no open comment
  | openLine hlast _ => cases hlast
  | openBlock hlast _ => cases hlast

end SqlGrammar.Lexer
