import SqlGrammar.Parser.Combinators
import SqlGrammar.Proofs.Lexer.Written

/-!
# What errors name

An error lists what was expected in the place of a token. Some entries spell a terminal, others
describe what may stand there and spell none. A terminal that is listed is meant to be acceptable,
but there are words that the grammar knows only in order to refuse them.
-/

set_option autoImplicit false

namespace SqlGrammar

/-- Whether the grammar knows the word only in order to refuse it. -/
def Keyword.isRefused : Keyword → Bool
  | JOIN | INNER | LEFT | OUTER | CROSS | NATURAL | USING | UNION | INTERSECT | EXCEPT | WITH
  | RECURSIVE => true
  | _ => false

/-- An entry of an error that spells no terminal: it describes many tokens, or spells two words in a
row or a name. -/
inductive Description where
  | identifier
  | number
  | literal
  | functionName
  | expression
  | endOfInput
  | noAction
  | rowid

namespace Description

def text : Description → String
  | identifier => "identifier"
  | number => "number"
  | literal => "literal value"
  | functionName => "function name"
  | expression => "expression"
  | endOfInput => "end of input"
  | noAction => "NO ACTION"
  | rowid => "ROWID"

def all : List Description :=
  [identifier, number, literal, functionName, expression, endOfInput, noAction, rowid]

theorem mem_all (entry : Description) : entry ∈ all := by
  cases entry <;> simp [all]

end Description

namespace Terminal

/-- Whether the grammar knows the terminal only in order to refuse it. -/
def isRefused : Terminal → Bool
  | keyword word => word.isRefused
  | operator _ => false

/-- All terminals. -/
def all : List Terminal := Keyword.all.map keyword ++ Operator.all.map operator

theorem mem_all (t : Terminal) : t ∈ all := by
  cases t with
  | keyword word => exact List.mem_append_left _ (List.mem_map_of_mem word.mem_all)
  | operator sign => exact List.mem_append_right _ (List.mem_map_of_mem sign.mem_all)

/-- The terminals that a list of descriptions spells. -/
def named (expected : List String) : List Terminal := all.filter fun t => expected.contains t.text

theorem mem_named {expected : List String} {t : Terminal} :
    t ∈ named expected ↔ t.text ∈ expected := by
  rw [named, List.mem_filter, List.contains_iff_mem]
  exact and_iff_right t.mem_all

/-- Different terminals are spelled differently. -/
theorem text_injective {t u : Terminal} (h : t.text = u.text) : t = u := by
  have hsign : ∀ sign ∈ Operator.all, Operator.ofText? sign.text = some sign := by decide +kernel
  have hword : ∀ sign ∈ Operator.all, Lexer.isWord sign.text.toList = false := by decide +kernel
  have hne (word : Keyword) (sign : Operator) (h : word.text = sign.text) : False := by
    have hsame := Lexer.isWord_text word
    rw [h, hword sign sign.mem_all] at hsame
    cases hsame
  cases t with
  | keyword word =>
    cases u with
    | keyword other =>
      have hsame := Lexer.ofText?_text word
      rw [show word.text = other.text from h, Lexer.ofText?_text] at hsame
      rw [Option.some.inj hsame]
    | operator sign => exact (hne word sign h).elim
  | operator sign =>
    cases u with
    | keyword word => exact (hne word sign h.symm).elim
    | operator other =>
      have hsame := hsign sign sign.mem_all
      rw [show sign.text = other.text from h, hsign other other.mem_all] at hsame
      rw [Option.some.inj hsame]

theorem text_ne_description (t : Terminal) (entry : Description) : t.text ≠ entry.text := by
  have hnone : ∀ t ∈ all, ∀ entry ∈ Description.all, t.text ≠ entry.text := by decide +kernel
  exact hnone t t.mem_all entry entry.mem_all

section Named

variable {expected : List String} (ts : List Terminal) (entries : List Description)

/-- Of what is listed, only the terminals are named. -/
theorem mem_of_named (hexpected : expected = ts.map text ++ entries.map Description.text)
    {t : Terminal} (ht : t ∈ named expected) : t ∈ ts := by
  rw [mem_named, hexpected, List.mem_append, List.mem_map, List.mem_map] at ht
  rcases ht with ⟨u, hu, htext⟩ | ⟨entry, -, htext⟩
  · exact text_injective htext ▸ hu
  · exact absurd htext.symm (t.text_ne_description entry)

theorem forall_named {p : Terminal → Prop}
    (hexpected : expected = ts.map text ++ entries.map Description.text) (h : ∀ t ∈ ts, p t) :
    ∀ t ∈ named expected, p t :=
  fun t ht => h t (mem_of_named ts entries hexpected ht)

theorem named_description (entry : Description) : named [entry.text] = [] :=
  List.eq_nil_iff_forall_not_mem.2 fun _ =>
    mt (mem_of_named [] [entry] rfl) List.not_mem_nil

end Named

theorem mem_named_text {t u : Terminal} : u ∈ named [t.text] ↔ u = t := by
  rw [mem_named, List.mem_singleton]
  constructor
  · exact text_injective
  · rintro rfl
    rfl

/-- Whatever is named by merged lists is named by one of them. -/
theorem mem_named_mergeExpected {known more : List String} {t : Terminal}
    (h : t ∈ named (Parser.mergeExpected known more)) : t ∈ named known ∨ t ∈ named more := by
  simp only [mem_named] at h ⊢
  induction more generalizing known with
  | nil => exact .inl h
  | cons item more ih =>
    rcases ih h with hknown | hmore
    · dsimp only at hknown
      split at hknown
      · exact .inl hknown
      · rw [List.mem_append, List.mem_singleton] at hknown
        rcases hknown with hknown | hitem
        · exact .inl hknown
        · exact .inr (hitem ▸ List.mem_cons_self)
    · exact .inr (List.mem_cons_of_mem item hmore)

end Terminal

end SqlGrammar
