import SqlGrammar.Tree.Expr

/-!
# Phrases

An expression, a query, or one of the trees that stand between them. All of them are declared
together, so that a proof about one is a proof about all: `Phrase.induction` goes from the immediate
parts of a phrase to the phrase, and `Phrase.Every` says that something holds of a phrase and of all
that is inside it.
-/

set_option autoImplicit false

namespace SqlGrammar

/-- A tree of the family of expressions and queries. -/
inductive Phrase where
  | expr (e : Expr)
  | call (c : FunctionCall)
  | args (a : CallArgs)
  | set (s : InSet)
  | branch (b : WhenBranch)
  | column (c : ResultColumn)
  | term (t : OrderingTerm)
  | limit (l : LimitClause)
  | query (q : Select)

namespace Phrase

/-- The phrases of an expression that may be missing. -/
def ofOption (e : Option Expr) : List Phrase := e.toList.map expr

/-- The immediate parts of a phrase. -/
def parts : Phrase → List Phrase
  | expr (.literal _) | expr (.parameter _) | expr (.column ..) => []
  | expr (.unary _ operand) => [expr operand]
  | expr (.binary left _ right) => [expr left, expr right]
  | expr (.like subject _ pattern escape _) => [expr subject, expr pattern] ++ ofOption escape
  | expr (.isNull subject _) => [expr subject]
  | expr (.between subject low high _) => [expr subject, expr low, expr high]
  | expr (.within subject s _) => [expr subject, set s]
  | expr (.call c) => [call c]
  | expr (.cast subject _) => [expr subject]
  | expr (.caseWhen operand branches otherwise) =>
    ofOption operand ++ branches.map branch ++ ofOption otherwise
  | expr (.collate subject _) => [expr subject]
  | expr (.existsRow q) | expr (.subquery q) => [query q]
  | expr (.paren inner) => [expr inner]
  | call c => [args c.args]
  | args .star => []
  | args (.list _ es) => es.map expr
  | set (.values es) => es.map expr
  | set (.query q) => [query q]
  | branch b => [expr b.condition, expr b.result]
  | column .all | column (.allOf _) => []
  | column (.expr e _) => [expr e]
  | term t => [expr t.key]
  | limit l => expr l.limit :: ofOption l.offset
  | query q =>
    q.columns.map column ++ ofOption q.filter ++ q.groupBy.map expr ++ ofOption q.having ++
      q.orderBy.map term ++ q.limit.toList.map limit

/-- A part that there may be is a part where there is one. -/
@[simp] theorem mem_ofOption {p : Phrase} {e : Option Expr} :
    p ∈ ofOption e ↔ ∃ x, e = some x ∧ p = expr x := by
  cases e <;> simp [ofOption]

/-- A part in a list is no larger than the list. -/
theorem sizeOf_le_of_mem_map {α : Type} [SizeOf α] {f : α → Phrase} {l : List α} {p : Phrase}
    (hf : ∀ a, sizeOf (f a) = 1 + sizeOf a) (h : p ∈ l.map f) : sizeOf p ≤ sizeOf l := by
  obtain ⟨a, ha, rfl⟩ := List.mem_map.1 h
  have := List.sizeOf_lt_of_mem ha
  rw [hf]
  omega

theorem sizeOf_le_of_mem_toList {α : Type} [SizeOf α] {f : α → Phrase} {o : Option α} {p : Phrase}
    (hf : ∀ a, sizeOf (f a) = 1 + sizeOf a) (h : p ∈ o.toList.map f) : sizeOf p ≤ sizeOf o := by
  cases o with
  | none => cases h
  | some a =>
    simp only [Option.toList_some, List.map_cons, List.map_nil, List.mem_singleton] at h
    subst h
    simp [hf]

theorem sizeOf_le_of_mem_ofOption {e : Option Expr} {p : Phrase} (h : p ∈ ofOption e) :
    sizeOf p ≤ sizeOf e :=
  sizeOf_le_of_mem_toList (fun _ => rfl) h

/-- The parts of an expression are smaller, by cases on its form. -/
theorem sizeOf_lt_expr {e : Expr} {q : Phrase} (h : q ∈ (expr e).parts) :
    sizeOf q < sizeOf (expr e) := by
  cases e with
  | like subject op pattern escape negated =>
    rcases List.mem_append.1 h with h | h
    · simp only [List.mem_cons, List.not_mem_nil, or_false] at h
      rcases h with rfl | rfl <;> simp <;> omega
    · have := sizeOf_le_of_mem_ofOption h
      simp at this ⊢
      omega
  | caseWhen operand branches otherwise =>
    simp only [parts, List.mem_append] at h
    rcases h with (h | h) | h
    · have := sizeOf_le_of_mem_ofOption h
      simp at this ⊢
      omega
    · have := sizeOf_le_of_mem_map (f := branch) (fun _ => rfl) h
      simp at this ⊢
      omega
    · have := sizeOf_le_of_mem_ofOption h
      simp at this ⊢
      omega
  -- the other forms have at most three parts, all of them expressions
  | literal | parameter | column => cases h
  | _ =>
    simp only [parts, List.mem_cons, List.not_mem_nil, or_false] at h
    rcases h with rfl | rfl | rfl <;> simp <;> omega

/-- The parts of a query are smaller, list by list. -/
theorem sizeOf_lt_query {s : Select} {q : Phrase} (h : q ∈ (query s).parts) :
    sizeOf q < sizeOf (query s) := by
  obtain ⟨distinct, columns, sources, filter, groupBy, having, orderBy, limit⟩ := s
  simp only [parts, List.mem_append] at h
  rcases h with ((((h | h) | h) | h) | h) | h
  · have := sizeOf_le_of_mem_map (f := column) (fun _ => rfl) h
    simp at this ⊢
    omega
  · have := sizeOf_le_of_mem_ofOption h
    simp at this ⊢
    omega
  · have := sizeOf_le_of_mem_map (fun _ => rfl) h
    simp at this ⊢
    omega
  · have := sizeOf_le_of_mem_ofOption h
    simp at this ⊢
    omega
  · have := sizeOf_le_of_mem_map (f := term) (fun _ => rfl) h
    simp at this ⊢
    omega
  · have := sizeOf_le_of_mem_toList (f := Phrase.limit) (fun _ => rfl) h
    simp at this ⊢
    omega

/-- The parts of a phrase are smaller than the phrase. -/
theorem sizeOf_lt {p q : Phrase} (h : q ∈ p.parts) : sizeOf q < sizeOf p := by
  cases p with
  | expr e => exact sizeOf_lt_expr h
  | call c =>
    obtain ⟨name, args⟩ := c
    simp only [parts, List.mem_cons, List.not_mem_nil, or_false] at h
    subst h
    simp only [call.sizeOf_spec, FunctionCall.mk.sizeOf_spec, Phrase.args.sizeOf_spec]
    omega
  | args a =>
    cases a with
    | star => cases h
    | list distinct es =>
      have := sizeOf_le_of_mem_map (fun _ => rfl) h
      simp at this ⊢
      omega
  | set s =>
    cases s with
    | values es =>
      have := sizeOf_le_of_mem_map (fun _ => rfl) h
      simp at this ⊢
      omega
    | query q =>
      simp only [parts, List.mem_cons, List.not_mem_nil, or_false] at h
      subst h
      simp
  | branch b =>
    obtain ⟨condition, result⟩ := b
    simp only [parts, List.mem_cons, List.not_mem_nil, or_false] at h
    rcases h with rfl | rfl
    · simp only [branch.sizeOf_spec, WhenBranch.mk.sizeOf_spec, expr.sizeOf_spec]
      omega
    · simp only [branch.sizeOf_spec, WhenBranch.mk.sizeOf_spec, expr.sizeOf_spec]
      omega
  | column c =>
    cases c with
    | expr e name =>
      simp only [parts, List.mem_cons, List.not_mem_nil, or_false] at h
      subst h
      simp
      omega
    | _ => cases h
  | term t =>
    obtain ⟨key, direction⟩ := t
    simp only [parts, List.mem_cons, List.not_mem_nil, or_false] at h
    subst h
    simp
    omega
  | limit l =>
    obtain ⟨limit, offset⟩ := l
    rcases List.mem_cons.1 h with rfl | h
    · simp
      omega
    · have := sizeOf_le_of_mem_ofOption h
      simp at this ⊢
      omega
  | query q => exact sizeOf_lt_query h

/-- What passes from the parts of a phrase to the phrase holds of every phrase. -/
theorem induction {P : Phrase → Prop} (step : ∀ p, (∀ q ∈ p.parts, P q) → P p) (p : Phrase) :
    P p :=
  step p fun q _ => induction step q
termination_by sizeOf p
decreasing_by exact sizeOf_lt ‹_›

/-! ## What holds throughout a phrase -/

/-- Something holds of a phrase and of all phrases inside it. -/
inductive Every (P : Phrase → Prop) : Phrase → Prop
  | intro {p : Phrase} : P p → (∀ q ∈ p.parts, Every P q) → Every P p

section Every

variable {P Q : Phrase → Prop} {p : Phrase}

/-- `Every` is what holds of the phrase itself and throughout its parts. -/
theorem every_iff : Every P p ↔ P p ∧ ∀ q ∈ p.parts, Every P q :=
  ⟨fun ⟨h, hparts⟩ => ⟨h, hparts⟩, fun ⟨h, hparts⟩ => ⟨h, hparts⟩⟩

theorem Every.self (h : Every P p) : P p := (every_iff.1 h).1

theorem Every.part (h : Every P p) {q : Phrase} (hq : q ∈ p.parts) : Every P q :=
  (every_iff.1 h).2 q hq

/-- By induction over the parts. -/
theorem Every.mono (h : Every P p) (himp : ∀ q, P q → Q q) : Every Q p := by
  induction h with
  | intro hself _ ih => exact ⟨himp _ hself, ih⟩

theorem Every.and (hp : Every P p) (hq : Every Q p) : Every (fun q => P q ∧ Q q) p := by
  induction hp with
  | intro hself _ ih => exact ⟨⟨hself, hq.self⟩, fun q hmem => ih q hmem (hq.part hmem)⟩

end Every

end Phrase

end SqlGrammar
