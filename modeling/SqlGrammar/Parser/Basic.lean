import SqlGrammar.Cursor

/-!
# Parsers as descriptions

A parser describes what is done with a cursor, step by step: look at the kind of a token, move on,
fail at the cursor, repeat, or go on to a goal of the grammar. Nothing but the kinds of tokens can
be looked at, with one exception: the name under which a token calls a function.

Goals stand for the productions of the grammar, by name. Because a goal is only named here, the
production of a goal may mention any goals, itself included; what a goal means, and how deep goals
may be nested, is settled where parsers are run.
-/

set_option autoImplicit false

namespace SqlGrammar

/-- A parser for values of a type, over goals each of which has a type of trees. -/
inductive Parser {G : Type} (Tree : G → Type) : Type → Type 1 where
  | give {α : Type} (value : α) : Parser Tree α
  | andThen {α β : Type} (first : Parser Tree α) (next : α → Parser Tree β) : Parser Tree β
  | look (distance : Nat) : Parser Tree TokenKind
  | callee : Parser Tree (Option String)
  | advance : Parser Tree Unit
  | unexpected {α : Type} (expected : List String) : Parser Tree α
  | unsupported {α : Type} (construct : String) : Parser Tree α
  | attempt {α : Type} (inner : Parser Tree α) : Parser Tree (Except (List String) α)
  | iterate {σ : Type} (step : σ → Parser Tree (Option σ)) (start : σ) : Parser Tree σ
  | goal (g : G) : Parser Tree (Tree g)
  | deeper {α : Type} (inner : Parser Tree α) : Parser Tree α

/-- The productions of a grammar: a parser for every goal. -/
abbrev Productions {G : Type} (Tree : G → Type) := (g : G) → Parser Tree (Tree g)

namespace Parser

variable {G : Type} {Tree : G → Type}

instance : Monad (Parser Tree) where
  pure := give
  bind := andThen

end Parser

end SqlGrammar
