import SqlGrammar.Proofs.Commitment
import SqlGrammar.Proofs.Parser.Throughout

/-!
# Lists that are added to others

A list with separators can be read by itself, or be added item by item to items that are there
before. Both are repetitions of their own. `Items` says what they have in common: which items are
read one after the other, and how that ends. Each of the two does what `Items` says, whatever the
items are made from, so that they agree where the list is complete and where it breaks off, and the
items that came before a failure are all that is added (`listInto_iff_separated`). They differ in
one case: a list that may be missing declines where the first item fails at its first token.
-/

set_option autoImplicit false

namespace SqlGrammar

variable {α β : Type} {c c' start : Cursor} {separator : Terminal} {item : Action α}
  {error : ParseError} {found items : List α} {reply : Reply Unit} {value : α}

/-- The reply with another value in place of its own. -/
def Reply.as (value : β) : Reply α → Reply β
  | .done _ c => .done value c
  | .failed error c => .failed error c

namespace Action

/-! ## Lists of items -/

/-- One more item for a list, if the separator is under the cursor. -/
def furtherItem (separator : Terminal) (item : Action α) (found : List α) :
    Action (Option (List α)) := fun c =>
  if separator.accepts (c.kindAt 0) then
    match item c.advance with
    | .done value c' => .done (some (found ++ [value])) c'
    | .failed error c' => .failed error c'
  else .done none c

/-- One or more items with a separator between them. -/
def separated (separator : Terminal) (item : Action α) : Action (List α) := fun c =>
  match item c with
  | .failed error c' => .failed error c'
  | .done first c' =>
    match iterate (furtherItem separator item) (c'.remaining + 1) [] c' with
    | .done others c'' => .done (first :: others) c''
    | .failed error c'' => .failed error c''

end Action

namespace Parser

variable {G : Type} {Tree : G → Type} (P : Productions Tree) (limit room : Nat)
  (p : Parser Tree α)

theorem run_collecting (found : List α) :
    (collecting (behind? separator p) found).run P limit room _ c =
      Action.furtherItem separator (p.run P limit room α) found c := by
  unfold collecting Action.furtherItem
  by_cases hkind : c.kindAt 0 = separator.kind
  · rw [if_pos (Terminal.accepts_iff.2 hkind)]
    cases hrun : p.run P limit room α c.advance with
    | done value c' =>
      have hbehind : (behind? separator p).run P limit room _ c = .done (some value) c' := by
        rw [behind?, run_bind_of_done (run_accept_of_eq hkind)]
        exact (run_bind_of_done hrun).trans (run_pure limit room c' _)
      exact (run_bind_of_done hbehind).trans (run_pure limit room c' _)
    | failed error c' =>
      have hbehind : (behind? separator p).run P limit room _ c = .failed error c' := by
        rw [behind?, run_bind_of_done (run_accept_of_eq hkind)]
        exact run_bind_of_failed hrun
      exact run_bind_of_failed hbehind
  · rw [if_neg (mt Terminal.accepts_iff.1 hkind)]
    have hbehind : (behind? separator p).run P limit room _ c = .done none c := by
      rw [behind?, run_bind_of_done (run_accept_of_ne hkind)]
      exact run_pure limit room c none
    exact (run_bind_of_done hbehind).trans (run_pure limit room c none)

/-- A list of what a parser reads is a list of what the parser does. -/
theorem run_separated (separator : Terminal) :
    (separated separator p).run P limit room _ =
      Action.separated separator (p.run P limit room α) := by
  funext c
  have hmany : ∀ c', (many (behind? separator p)).run P limit room _ c' =
      Action.iterate (Action.furtherItem separator (p.run P limit room α))
        (c'.remaining + 1) [] c' := by
    intro c'
    refine (run_iterate limit room c' (collecting (behind? separator p)) []).trans ?_
    congr 1
    funext found c''
    exact run_collecting P limit room p found
  rw [separated, Action.separated]
  cases hfirst : p.run P limit room α c with
  | failed error c' => exact run_bind_of_failed hfirst
  | done first c' =>
    rw [run_bind_of_done hfirst]
    dsimp only
    rw [← hmany c']
    cases hothers : (many (behind? separator p)).run P limit room _ c' with
    | failed error c'' => exact run_bind_of_failed hothers
    | done others c'' => exact (run_bind_of_done hothers).trans (run_pure limit room c'' _)

end Parser

namespace Action

/-! ## What is read of a list -/

/-- What is read behind an item, and how that ends: where no separator stands, or with an item that
fails. -/
inductive FurtherItems (separator : Terminal) (item : Action α) :
    Cursor → List α → Reply Unit → Prop
  | stop {c : Cursor} : separator.accepts (c.kindAt 0) = false →
      FurtherItems separator item c [] (.done () c)
  | broken {c c' : Cursor} {error : ParseError} : separator.accepts (c.kindAt 0) = true →
      item c.advance = .failed error c' → FurtherItems separator item c [] (.failed error c')
  | next {c c' : Cursor} {value : α} {found : List α} {reply : Reply Unit} :
      separator.accepts (c.kindAt 0) = true → item c.advance = .done value c' →
      FurtherItems separator item c' found reply →
      FurtherItems separator item c (value :: found) reply

/-- The items that are read one after the other from a cursor on, and how that ends. -/
inductive Items (separator : Terminal) (item : Action α) (c : Cursor) :
    List α → Reply Unit → Prop
  | missing {c' : Cursor} {error : ParseError} : item c = .failed error c' →
      Items separator item c [] (.failed error c')
  | first {c' : Cursor} {value : α} {found : List α} {reply : Reply Unit} :
      item c = .done value c' → FurtherItems separator item c' found reply →
      Items separator item c (value :: found) reply

/-- From the cursor on, the action stops nowhere before it has started. -/
def ForwardFrom (action : Action α) (c : Cursor) : Prop :=
  ∀ d, c.LeadsTo d → d.LeadsTo (action d).cursor

theorem ForwardFrom.of_leadsTo (h : item.ForwardFrom c) (hlead : c.LeadsTo c') :
    item.ForwardFrom c' :=
  fun d hd => h d (hlead.trans hd)

theorem ForwardFrom.leadsTo_of_done (h : item.ForwardFrom c) (hdone : item c = .done value c') :
    c.LeadsTo c' := by
  have hlead := h c (.refl c)
  rwa [hdone] at hlead

/-- An item behind a separator leaves fewer tokens. -/
theorem ForwardFrom.remaining_lt (h : item.ForwardFrom c)
    (hseparator : separator.accepts (c.kindAt 0) = true)
    (hdone : item c.advance = .done value c') :
    c.LeadsTo c' ∧ c'.remaining < c.remaining := by
  have hlead := (h.of_leadsTo (Cursor.leadsTo_advance c)).leadsTo_of_done hdone
  have hlt := Cursor.remaining_advance_lt
    (Terminal.ne_eof_of_eq (Parser.Terminal.accepts_iff.1 hseparator))
  exact ⟨(Cursor.leadsTo_advance c).trans hlead, Nat.lt_of_le_of_lt hlead.remaining_le hlt⟩

theorem exists_furtherItems (separator : Terminal) (h : item.ForwardFrom c) :
    ∃ found reply, FurtherItems separator item c found reply := by
  induction hn : c.remaining using Nat.strongRecOn generalizing c with
  | ind n ih =>
    subst hn
    cases hseparator : separator.accepts (c.kindAt 0) with
    | false => exact ⟨_, _, .stop hseparator⟩
    | true =>
      cases hitem : item c.advance with
      | failed error c' => exact ⟨_, _, .broken hseparator hitem⟩
      | done value c' =>
        obtain ⟨hlead, hlt⟩ := h.remaining_lt hseparator hitem
        obtain ⟨found, reply, hfound⟩ := ih _ hlt (h.of_leadsTo hlead) rfl
        exact ⟨_, _, .next hseparator hitem hfound⟩

theorem exists_items (separator : Terminal) (h : item.ForwardFrom c) :
    ∃ found reply, Items separator item c found reply := by
  cases hitem : item c with
  | failed error c' => exact ⟨_, _, .missing hitem⟩
  | done value c' =>
    obtain ⟨found, reply, hfound⟩ :=
      exists_furtherItems separator (h.of_leadsTo (h.leadsTo_of_done hitem))
    exact ⟨_, _, .first hitem hfound⟩

/-! ## Both repetitions -/

/-- As many rounds as there are tokens are enough to add all items. -/
theorem growList_of_furtherItems (hfound : FurtherItems separator item c found reply) :
    item.ForwardFrom c → ∀ rounds items, c.remaining < rounds →
      growList separator item rounds items c = (reply, items ++ found) := by
  -- one round for each item that is read; the separator before it is the token it costs
  induction hfound with
  | stop hseparator =>
    rintro - (_ | rounds) items hrounds
    · omega
    · rw [growList, hseparator, List.append_nil]
      rfl
  | broken hseparator hitem =>
    rintro - (_ | rounds) items hrounds
    · omega
    · rw [growList, hseparator, if_pos rfl, hitem, List.append_nil]
  | next hseparator hitem _ ih =>
    rintro h (_ | rounds) items hrounds
    · omega
    · obtain ⟨hlead, hlt⟩ := h.remaining_lt hseparator hitem
      rw [growList, hseparator, if_pos rfl, hitem]
      dsimp only
      rw [ih (h.of_leadsTo hlead) rounds _ (by omega), List.append_assoc]
      rfl

theorem iterate_of_furtherItems (hfound : FurtherItems separator item c found reply) :
    item.ForwardFrom c → ∀ rounds items, c.remaining < rounds →
      iterate (furtherItem separator item) rounds items c = reply.as (items ++ found) := by
  induction hfound with
  | stop hseparator =>
    rintro - (_ | rounds) items hrounds
    · omega
    · rw [iterate, furtherItem, hseparator, List.append_nil]
      rfl
  | broken hseparator hitem =>
    rintro - (_ | rounds) items hrounds
    · omega
    · rw [iterate, furtherItem, hseparator, if_pos rfl, hitem]
      rfl
  | next hseparator hitem _ ih =>
    rintro h (_ | rounds) items hrounds
    · omega
    · obtain ⟨hlead, hlt⟩ := h.remaining_lt hseparator hitem
      rw [iterate, furtherItem, hseparator, if_pos rfl, hitem]
      dsimp only
      rw [if_pos hlt, ih (h.of_leadsTo hlead) rounds _ (by omega), List.append_assoc]
      rfl

theorem separated_of_items (hfound : Items separator item c found reply)
    (h : item.ForwardFrom c) : separated separator item c = reply.as found := by
  cases hfound with
  | missing hitem => rw [separated, hitem, Reply.as]
  | @first c' value found reply hitem hfurther =>
    have hothers := iterate_of_furtherItems hfurther (h.of_leadsTo (h.leadsTo_of_done hitem))
      (c'.remaining + 1) [] (Nat.lt_succ_self _)
    rw [separated, hitem]
    dsimp only
    rw [hothers]
    cases reply <;> rfl

/-! ## Lists that may be missing -/

/-- The action fails because something else was expected at the token under the cursor. -/
def FailsAtStart (action : Action α) (c : Cursor) : Prop :=
  ∃ error c', action c = .failed error c' ∧ error.IsUnexpected ∧
    error.span.start = c.current.span.start

/-- A list that may be missing is missing where its first item fails at its first token. -/
theorem listInto_of_failsAtStart (h : item.FailsAtStart c) (separator : Terminal)
    (items : List α) : listInto separator item items c = (.done false c, items) := by
  obtain ⟨error, c', hfail, hstart⟩ := h
  rw [listInto, attempt_of_mismatch hfail ((error.isMismatchAt_iff _).2 hstart)]

/-- Everywhere else, the items that are read are added, whether the list is complete or not. -/
theorem listInto_of_items (hfound : Items separator item c found reply)
    (h : item.ForwardFrom c) (hstart : ¬ item.FailsAtStart c) (items : List α) :
    listInto separator item items c = (reply.as true, items ++ found) := by
  cases hfound with
  | @missing c' error hitem =>
    have hcommitted : error.isMismatchAt c.current.span.start = false :=
      Bool.eq_false_iff.2 fun hmismatch =>
        hstart ⟨error, c', hitem, (error.isMismatchAt_iff _).1 hmismatch⟩
    rw [listInto, attempt_of_committed hitem hcommitted, List.append_nil]
    rfl
  | @first c' value found reply hitem hfurther =>
    have hgrown := growList_of_furtherItems hfurther (h.of_leadsTo (h.leadsTo_of_done hitem))
      (c'.remaining + 1) (items ++ [value]) (Nat.lt_succ_self _)
    rw [List.append_assoc] at hgrown
    rw [listInto, attempt, hitem]
    dsimp only
    rw [hgrown]
    cases reply <;> rfl

/-- A list that may be missing is missing, and then the list by itself fails; or it is read as the
list by itself is. -/
theorem listInto_cases (separator : Terminal) (h : item.ForwardFrom c) (items : List α) :
    (item.FailsAtStart c ∧ listInto separator item items c = (.done false c, items) ∧
        ∃ error c', separated separator item c = .failed error c') ∨
      (¬ item.FailsAtStart c ∧ ∃ found reply,
        separated separator item c = reply.as found ∧
          listInto separator item items c = (reply.as true, items ++ found) ∧
          Items separator item c found reply) := by
  by_cases hmissing : item.FailsAtStart c
  · refine .inl ⟨hmissing, listInto_of_failsAtStart hmissing separator items, ?_⟩
    obtain ⟨error, c', hfail, -⟩ := hmissing
    exact ⟨error, c', by rw [separated, hfail]⟩
  · obtain ⟨found, reply, hfound⟩ := exists_items separator h
    exact .inr ⟨hmissing, found, reply, separated_of_items hfound h,
      listInto_of_items hfound h hmissing items, hfound⟩

/-- Among the tokens of a text, `listInto` adds to other items what `separated` reads, whatever the
items are, as long as they do not go back (`ForwardFrom`). It is complete where `separated` is, with
the same items and the same end. It finds no list where the first item `FailsAtStart`, which is told
by the offset of that token; then nothing has changed. Where it breaks off otherwise, the failure is
that of `separated`, and the `Items` that were read before it have been added. `Parser.separated` is
`separated` of what its parser does. -/
theorem listInto_iff_separated {text : String} (hstart : Cursor.ofText text = .ok start)
    (hc : start.LeadsTo c) (separator : Terminal) (item : Action α) (h : item.ForwardFrom c)
    (items : List α) :
    (∀ c' all, listInto separator item items c = (.done true c', all) ↔
        ∃ found, separated separator item c = .done found c' ∧ all = items ++ found) ∧
      (∀ c' all, listInto separator item items c = (.done false c', all) ↔
        item.FailsAtStart c ∧ c' = c ∧ all = items) ∧
      (∀ error c' all, listInto separator item items c = (.failed error c', all) ↔
        ¬ item.FailsAtStart c ∧ separated separator item c = .failed error c' ∧
          ∃ found, Items separator item c found (.failed error c') ∧ all = items ++ found) ∧
      (∀ c', start.LeadsTo c' → (c'.current.span.start = c.current.span.start ↔ c' = c)) ∧
      ∀ (G : Type) (Tree : G → Type) (P : Productions Tree) (limit room : Nat)
        (p : Parser Tree α), (Parser.separated separator p).run P limit room _ =
          separated separator (p.run P limit room α) := by
  have hcases := listInto_cases separator h items
  refine ⟨fun c' all => ?_, fun c' all => ?_, fun error c' all => ?_,
    fun c' hc' => Cursor.start_eq_iff_of_ofText hstart hc hc',
    fun _ _ P limit room p => Parser.run_separated P limit room p separator⟩
  · rcases hcases with ⟨-, hinto, error, d, hlist⟩ | ⟨-, found, reply, hlist, hinto, -⟩
    · rw [hinto, hlist]
      simp
    · rw [hinto, hlist]
      cases reply with
      | done value d =>
        constructor
        · rintro ⟨⟩
          exact ⟨found, rfl, rfl⟩
        · rintro ⟨found', ⟨⟩, rfl⟩
          rfl
      | failed error d => simp [Reply.as]
  · rcases hcases with ⟨hmissing, hinto, -⟩ | ⟨hpresent, found, reply, -, hinto, -⟩
    · rw [hinto]
      constructor
      · rintro ⟨⟩
        exact ⟨hmissing, rfl, rfl⟩
      · rintro ⟨-, rfl, rfl⟩
        rfl
    · rw [hinto]
      cases reply <;> simp [Reply.as, hpresent]
  · rcases hcases with ⟨hmissing, hinto, -⟩ | ⟨hpresent, found, reply, hlist, hinto, hfound⟩
    · rw [hinto]
      simp [hmissing]
    · constructor
      · intro hfailed
        rw [hinto] at hfailed
        cases reply with
        | done value d => cases hfailed
        | failed error' d =>
          cases hfailed
          exact ⟨hpresent, hlist, found, hfound, rfl⟩
      · rintro ⟨-, -, found', hfound', rfl⟩
        exact listInto_of_items hfound' h hpresent items

/-- What is done with a name. -/
def takeName : Action String :=
  (Parser.identifier : Production String).run Grammar.productions 200 7 String

/-- The cursor at the number in `a, b, 1`. -/
def atListedNumber : Cursor := ⟨[⟨.number "1", "1", ⟨6, 7⟩⟩], .eof 7, rfl⟩

/-- The cursor at the start of `a, b, 1`. -/
def atListedNames : Cursor := { atListedNumber with
  ahead := [⟨.identifier "a", "a", ⟨0, 1⟩⟩, ⟨.operator .comma, ",", ⟨1, 2⟩⟩,
    ⟨.identifier "b", "b", ⟨3, 4⟩⟩, ⟨.operator .comma, ",", ⟨4, 5⟩⟩] ++ atListedNumber.ahead }

/-- The names before the number have been added when the list breaks off. -/
theorem listInto_iff_separated_brokenOff :
    Cursor.ofText "a, b, 1" = .ok atListedNames ∧ takeName.ForwardFrom atListedNames ∧
      listInto Operator.comma takeName ["z"] atListedNames =
        (.failed (atListedNumber.unexpected ["identifier"]) atListedNumber, ["z", "a", "b"]) := by
  have hstart : Cursor.ofText "a, b, 1" = .ok atListedNames := Lexer.ok_of_toOption (by decide)
  have hforward : takeName.ForwardFrom atListedNames := fun d _ =>
    (Parser.run_located 200 7 _ d).leadsTo
  obtain ⟨-, -, hbroken, -⟩ := listInto_iff_separated hstart (.refl _) Operator.comma takeName
    hforward ["z"]
  have hfirst : takeName atListedNames = .done "a" atListedNames.advance := by decide
  have hsecond : takeName atListedNames.advance.advance =
      .done "b" atListedNames.advance.advance.advance := by decide
  refine ⟨hstart, hforward, (hbroken _ _ _).2 ⟨?_, by decide, ["a", "b"], ?_, rfl⟩⟩
  · rintro ⟨error, c', hfail, -⟩
    rw [hfirst] at hfail
    cases hfail
  · exact .first hfirst (.next (by decide) hsecond (.broken (by decide) (by decide)))

end Action

end SqlGrammar
