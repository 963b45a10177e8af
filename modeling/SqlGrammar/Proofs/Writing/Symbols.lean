import SqlGrammar.Proofs.Writing.Canonical
import SqlGrammar.Proofs.Writing.Rendered

/-!
# The symbols of a written tree

How the symbols of groups of pieces are put together from those of their members.
-/

set_option autoImplicit false

namespace SqlGrammar

/-! ## Single pieces -/

namespace Piece

/-- The symbols of a single piece are computed; these are the pieces that trees are put together
from. -/
@[simp] theorem symbols_keyword (word : Keyword) : (keyword word).symbols = [.keyword word] := rfl
@[simp] theorem symbols_name (own : String) : (name own).symbols = [.name own] := rfl
@[simp] theorem symbols_openParen : openParen.symbols = [.operator .leftParen] := rfl
@[simp] theorem symbols_callParen : callParen.symbols = [.operator .leftParen] := rfl
@[simp] theorem symbols_closeParen : closeParen.symbols = [.operator .rightParen] := rfl
@[simp] theorem symbols_comma : comma.symbols = [.operator .comma] := rfl
@[simp] theorem symbols_dot : dot.symbols = [.operator .dot] := rfl
@[simp] theorem symbols_semicolon : semicolon.symbols = [.operator .semicolon] := rfl

end Piece

/-! ## Groups of pieces -/

namespace Pieces

@[simp] theorem symbols_nil : symbols [] = [] := rfl

/-- `symbols` of a first piece and the others. -/
@[simp] theorem symbols_cons (p : Piece) (ps : List Piece) :
    symbols (p :: ps) = p.symbols ++ symbols ps := rfl

/-- `symbols` goes through a concatenation. -/
@[simp] theorem symbols_append (ps qs : List Piece) :
    symbols (ps ++ qs) = symbols ps ++ symbols qs := by
  simp [symbols]

/-- Each of `keywords` is a symbol. -/
@[simp] theorem symbols_keywords (words : List Keyword) :
    symbols (keywords words) = words.map Symbol.keyword := by
  induction words with
  | nil => rfl
  | cons word words ih => simp [keywords, symbols] at ih ⊢; exact ih

/-- Parentheses add a symbol on either side. -/
@[simp] theorem symbols_inParens (ps : List Piece) :
    symbols (inParens ps) = .operator .leftParen :: (symbols ps ++ [.operator .rightParen]) := by
  simp [inParens]

/-- A `flag` that is set is its keywords, and nothing otherwise. -/
@[simp] theorem symbols_flag_true (words : List Keyword) :
    symbols (flag words true) = words.map Symbol.keyword := symbols_keywords words

@[simp] theorem symbols_flag_false (words : List Keyword) : symbols (flag words false) = [] := rfl

/-- A `clause` is nothing without what it introduces, and has its keywords before that. -/
@[simp] theorem symbols_clause_none (words : List Keyword) : symbols (clause words none) = [] := rfl

@[simp] theorem symbols_clause_some (words : List Keyword) (ps : List Piece) :
    symbols (clause words (some ps)) = words.map Symbol.keyword ++ symbols ps := by
  simp [clause]

/-- A list is its first item, and the others with a comma in front of each. -/
theorem symbols_commaList_cons (ps : List Piece) (items : List (List Piece)) :
    symbols (commaList (ps :: items)) =
      symbols ps ++ items.flatMap fun qs => .operator .comma :: symbols qs := by
  induction items generalizing ps with
  | nil => simp [commaList]
  | cons qs items ih => simp [commaList, ih]

/-- A `listClause` is nothing without items. -/
@[simp] theorem symbols_listClause_nil (words : List Keyword) :
    symbols (listClause words []) = [] := rfl

theorem symbols_listClause_cons (words : List Keyword) (ps : List Piece)
    (items : List (List Piece)) :
    symbols (listClause words (ps :: items)) =
      words.map Symbol.keyword ++ symbols (commaList (ps :: items)) := by
  simp [listClause]

/-- `symbols` goes through `List.flatMap`. -/
theorem symbols_flatMap {α : Type} (f : α → List Piece) (as : List α) :
    symbols (as.flatMap f) = as.flatMap fun a => symbols (f a) := by
  induction as with
  | nil => rfl
  | cons a as ih => rw [List.flatMap_cons, symbols_append, ih, List.flatMap_cons]

end Pieces

/-! ## Operators -/

/-- The symbols of an operator are its `BinaryOp.terminals`. -/
theorem BinaryOp.symbols_pieces (op : BinaryOp) :
    Pieces.symbols op.pieces = op.terminals.map Terminal.symbol := by
  unfold BinaryOp.pieces
  induction op.terminals with
  | nil => rfl
  | cons t ts ih => simp [ih]

/-- A prefix operator is one symbol, whether it is written as a sign or not. -/
theorem UnaryOp.symbols_pieces (op : UnaryOp) (operand : Expr) :
    Pieces.symbols (op.pieces operand) = [op.terminal.symbol] := by
  have hsign : ∀ op : UnaryOp, op ≠ .not →
      Pieces.symbols [.sign op.text] = [op.terminal.symbol] ∧
        Pieces.symbols [.operator op.text] = [op.terminal.symbol] := by
    intro op hop
    cases op with
    | not => exact absurd rfl hop
    | _ => exact ⟨rfl, rfl⟩
  cases op with
  | not => rfl
  | neg =>
    rw [UnaryOp.pieces]
    split
    · exact (hsign .neg (by simp)).2
    · exact (hsign .neg (by simp)).1
  | pos => exact (hsign .pos (by simp)).1
  | bitNot => exact (hsign .bitNot (by simp)).1

/-! ## Trees -/

/-- The symbols that an expression is written with. -/
def Expr.symbols (e : Expr) : List Symbol := Pieces.symbols e.pieces

/-- The symbols that a query is written with. -/
def Select.symbols (q : Select) : List Symbol := Pieces.symbols q.pieces

/-- The symbols of a left operand of an operator of a power. -/
def Expr.leftSymbols (power : Nat) (e : Expr) : List Symbol := Pieces.symbols (e.leftPieces power)

/-- The symbols of an operand where a power is demanded. -/
def Expr.rightSymbols (least : Nat) (e : Expr) : List Symbol :=
  Pieces.symbols (e.rightPieces least)

/-- What is written of a left operand is the operand itself or the operand as a `paren`. -/
theorem Expr.leftSymbols_eq (power : Nat) (e : Expr) :
    e.leftSymbols power = if e.fitsLeft power then e.symbols else (paren e).symbols := by
  unfold leftSymbols leftPieces parensUnless
  split <;> rfl

/-- What is written of a right operand is the operand itself or the operand as a `paren`. -/
theorem Expr.rightSymbols_eq (least : Nat) (e : Expr) :
    e.rightSymbols least = if e.fitsRight least then e.symbols else (paren e).symbols := by
  unfold rightSymbols rightPieces parensUnless
  split <;> rfl

theorem Expr.symbols_paren (e : Expr) :
    (paren e).symbols = .operator .leftParen :: (e.symbols ++ [.operator .rightParen]) :=
  Pieces.symbols_inParens e.pieces

/-! ## Operators and their operands -/

/-- The symbols of a `NOT`, if there is one. -/
def notSymbols (negated : Bool) : List Symbol := Pieces.symbols (Pieces.flag [.NOT] negated)

namespace Expr

/-- The symbols of each form of an expression with operands, with these as `leftSymbols` and
`rightSymbols`. -/
theorem symbols_unary (op : UnaryOp) (operand : Expr) :
    (unary op operand).symbols = op.terminal.symbol :: operand.rightSymbols op.power := by
  rw [symbols, pieces_unary, Pieces.symbols_append, UnaryOp.symbols_pieces]
  rfl

theorem symbols_binary (left : Expr) (op : BinaryOp) (right : Expr) :
    (binary left op right).symbols = left.leftSymbols op.power ++
      (op.terminals.map Terminal.symbol ++ right.rightSymbols (op.power + 1)) := by
  rw [symbols, pieces_binary, Pieces.symbols_append, Pieces.symbols_append,
    BinaryOp.symbols_pieces, List.append_assoc]
  rfl

/-- The escape of a pattern is a right operand too. -/
theorem symbols_like (subject : Expr) (op : LikeOp) (pattern : Expr) (escape : Option Expr)
    (negated : Bool) :
    (like subject op pattern escape negated).symbols = subject.leftSymbols equalityPower ++
      (notSymbols negated ++ .keyword op.keyword :: (pattern.rightSymbols (equalityPower + 1) ++
        Pieces.symbols (Pieces.clause [.ESCAPE]
          (escape.map fun x => x.rightPieces (equalityPower + 1))))) := by
  rw [symbols, pieces_like]
  simp [notSymbols, leftSymbols, rightSymbols]

theorem symbols_isNull (subject : Expr) (negated : Bool) :
    (isNull subject negated).symbols = subject.leftSymbols equalityPower ++
      .keyword .IS :: (notSymbols negated ++ [.keyword .NULL]) := by
  rw [symbols, pieces_isNull]
  simp [notSymbols, leftSymbols]

/-- Both bounds are right operands, at the power above `equalityPower`. -/
theorem symbols_between (subject low high : Expr) (negated : Bool) :
    (between subject low high negated).symbols = subject.leftSymbols equalityPower ++
      (notSymbols negated ++ .keyword .BETWEEN :: (low.rightSymbols (equalityPower + 1) ++
        .keyword .AND :: high.rightSymbols (equalityPower + 1))) := by
  rw [symbols, pieces_between]
  simp [notSymbols, leftSymbols, rightSymbols]

theorem symbols_within (subject : Expr) (set : InSet) (negated : Bool) :
    (within subject set negated).symbols = subject.leftSymbols equalityPower ++
      (notSymbols negated ++ .keyword .IN :: .operator .leftParen ::
        (Pieces.symbols set.pieces ++ [.operator .rightParen])) := by
  rw [symbols, pieces_within]
  simp [notSymbols, leftSymbols]

theorem symbols_collate (subject : Expr) (collation : String) :
    (collate subject collation).symbols =
      subject.leftSymbols collatePower ++ [.keyword .COLLATE, .name collation] := by
  rw [symbols, pieces_collate, Pieces.symbols_append]
  rfl

end Expr

end SqlGrammar
