import SqlGrammar.Tree.Expr

/-!
# Binding powers

How strongly operators hold their operands. All operators between two operands group to the left:
the operand on the right may only hold operators that bind more strongly than the operator itself.
-/

set_option autoImplicit false

namespace SqlGrammar

/-! ## Powers of operators -/

/-- The power of equality, and of all that tests its left operand in the same way. -/
def equalityPower : Nat := 7

/-- The power of a `NOT` in front of its operand. -/
def negationPower : Nat := 5

/-- The power of a sign in front of its operand. -/
def signPower : Nat := 21

/-- The power of `COLLATE`. -/
def collatePower : Nat := 19

/-- The power of what holds no open operand; more than that of any operator. -/
def atomPower : Nat := 255

/-- The power of an operator in front of its operand. -/
def UnaryOp.power : UnaryOp → Nat
  | not => negationPower
  | neg | pos | bitNot => signPower

/-- The power of an operator between two operands. -/
def BinaryOp.power : BinaryOp → Nat
  | or => 1
  | and => 3
  | eq | notEq | is | isNot => equalityPower
  | lt | le | gt | ge => 9
  | bitAnd | bitOr | shiftLeft | shiftRight => 11
  | add | sub => 13
  | mul | div | mod => 15
  | concat => 17

/-- The power with which a token takes what stands before it as its left operand. -/
def infixPower? : TokenKind → Option Nat
  | .keyword .OR => some 1
  | .keyword .AND => some 3
  | .operator .eq | .operator .notEq => some equalityPower
  | .keyword .IS | .keyword .IN | .keyword .LIKE | .keyword .GLOB | .keyword .REGEXP
  | .keyword .MATCH | .keyword .BETWEEN | .keyword .ISNULL | .keyword .NOTNULL | .keyword .NOT =>
    some equalityPower
  | .operator .lt | .operator .le | .operator .gt | .operator .ge => some 9
  | .operator .bitAnd | .operator .bitOr | .operator .shiftLeft | .operator .shiftRight => some 11
  | .operator .plus | .operator .minus => some 13
  | .operator .star | .operator .slash | .operator .percent => some 15
  | .operator .concat => some 17
  | .keyword .COLLATE => some collatePower
  | _ => none

/-- Whether a `NOT` before a token of this kind belongs to an operator, and not to an operand. -/
def followsInfixNot : TokenKind → Bool
  | .keyword .LIKE | .keyword .GLOB | .keyword .REGEXP | .keyword .MATCH | .keyword .BETWEEN
  | .keyword .IN | .keyword .NULL => true
  | _ => false

/-! ## Powers of expressions -/

namespace Expr

/-- The power of the outermost operator of an expression. -/
def power : Expr → Nat
  | binary _ op _ => op.power
  | like .. | isNull .. | between .. | within .. => equalityPower
  | collate .. => collatePower
  | unary op _ => op.power
  | literal _ | parameter _ | column .. | call _ | cast .. | caseWhen .. | existsRow _
  | subquery _ | paren _ => atomPower

/-- The least power with which an operator behind the expression would be drawn into it. Only a
`NOT` without parentheses at the end of an expression takes in what follows. -/
def tailPower : Expr → Nat
  | unary .not operand => min negationPower operand.tailPower
  | unary .neg operand | unary .pos operand | unary .bitNot operand => operand.tailPower
  | binary _ _ right => right.tailPower
  | like _ _ _ (some escape) _ => escape.tailPower
  | like _ _ pattern none _ => pattern.tailPower
  | between _ _ high _ => high.tailPower
  | literal _ | parameter _ | column .. | isNull .. | within .. | call _ | cast .. | caseWhen ..
  | collate .. | existsRow _ | subquery _ | paren _ => atomPower

end Expr

end SqlGrammar
