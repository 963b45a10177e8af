import SqlGrammar.Parser.Combinators

/-!
# Running parsers

What a parser does with a cursor, given the productions of the grammar and the number of levels
that may still be nested. Going on to a goal uses up one level; without a level left it fails. The
levels left are also the measure by which running a parser ends.
-/

set_option autoImplicit false

namespace SqlGrammar

/-! ## Replies -/

/-- The outcome of running a parser: a value or an error, and the cursor where it came about. -/
inductive Reply (α : Type) where
  | done (value : α) (cursor : Cursor)
  | failed (error : ParseError) (cursor : Cursor)

/-- The outcome in the terms of `Except`, without the cursor. -/
def Reply.toExcept {α : Type} : Reply α → Except ParseError α
  | done value _ => .ok value
  | failed error _ => .error error

/-- Something that is done with a cursor. -/
abbrev Action (α : Type) := Cursor → Reply α

namespace Action

variable {α σ : Type}

/-- Undoes an action that fails because of the token under the cursor, and gives what was expected
there. Any other failure stands. -/
def attempt (action : Action α) : Action (Except (List String) α) := fun c =>
  match action c with
  | .done value c' => .done (.ok value) c'
  | .failed error c' =>
    if error.isMismatchAt c.current.span.start then .done (.error error.expected) c
    else .failed error c'

/-- Repeats a step until it gives nothing, at most `rounds` times. A round in which the cursor does
not move is the last one, so that more rounds than tokens make no difference. -/
def iterate (step : σ → Action (Option σ)) : (rounds : Nat) → σ → Action σ
  | 0, state, c => .done state c
  | rounds + 1, state, c =>
    match step state c with
    | .failed error c' => .failed error c'
    | .done none c' => .done state c'
    | .done (some state') c' =>
      if c'.remaining < c.remaining then iterate step rounds state' c' else .done state' c'

/-- Adds items to a list for as long as the separator is under the cursor. The items that came
before a failure are kept. -/
def growList (separator : Terminal) (item : Action α) :
    (rounds : Nat) → List α → Cursor → Reply Unit × List α
  | 0, items, c => (.done () c, items)
  | rounds + 1, items, c =>
    if separator.accepts (c.kindAt 0) then
      match item c.advance with
      | .done value c' => growList separator item rounds (items ++ [value]) c'
      | .failed error c' => (.failed error c', items)
    else (.done () c, items)

/-- Adds one or more items with a separator between them to a list, and says whether any were
found; if the first fails because of the token under the cursor, none were. -/
def listInto (separator : Terminal) (item : Action α) (items : List α) (c : Cursor) :
    Reply Bool × List α :=
  match attempt item c with
  | .failed error c' => (.failed error c', items)
  | .done (.error _) c' => (.done false c', items)
  | .done (.ok value) c' =>
    match growList separator item (c'.remaining + 1) (items ++ [value]) c' with
    | (.done _ c'', all) => (.done true c'', all)
    | (.failed error c'', all) => (.failed error c'', all)

end Action

/-! ## Parsers -/

namespace Parser

variable {G : Type} {Tree : G → Type}

/-- What a parser does, when `nested` tells what a parser one level deeper does. -/
def perform (productions : Productions Tree)
    (nested : (α : Type) → Parser Tree α → Action α) :
    {α : Type} → Parser Tree α → Action α
  | _, give value, c => .done value c
  | _, andThen first next, c =>
    match first.perform productions nested c with
    | .done value c' => (next value).perform productions nested c'
    | .failed error c' => .failed error c'
  | _, look distance, c => .done (c.kindAt distance) c
  | _, callee, c => .done c.current.callee? c
  | _, advance, c => .done () c.advance
  | _, unexpected expected, c => .failed (c.unexpected expected) c
  | _, unsupported construct, c => .failed (c.unsupported construct) c
  | _, attempt inner, c => Action.attempt (inner.perform productions nested) c
  | _, iterate step start, c =>
    Action.iterate (fun state => (step state).perform productions nested) (c.remaining + 1) start c
  | _, goal g, c => nested _ (productions g) c
  | _, deeper inner, c => nested _ inner c

/-- What a parser does with `room` levels left out of `limit`. -/
def run (productions : Productions Tree) (limit : Nat) :
    (room : Nat) → (α : Type) → Parser Tree α → Action α
  | 0, _, p => p.perform productions fun _ _ c => .failed (c.tooDeep limit) c
  | room + 1, _, p => p.perform productions (run productions limit room)

/-- What a parser does before any level has been used. -/
def runTop {α : Type} (productions : Productions Tree) (limit : Nat) (p : Parser Tree α) :
    Action α :=
  p.run productions limit limit

end Parser

end SqlGrammar
