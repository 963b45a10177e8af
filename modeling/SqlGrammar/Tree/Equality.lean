import SqlGrammar.Tree.Expr

/-!
# Equality of expressions and queries

A Boolean comparison by structural recursion, its correctness (`Expr.same_iff` and companions), and
the decidable equalities that follow.
-/

set_option autoImplicit false

namespace SqlGrammar

/-! ## Comparison -/

mutual

/-- Whether two expressions are the same tree. -/
def Expr.same : Expr → Expr → Bool
  | .literal a, .literal b => a == b
  | .parameter a, .parameter b => a == b
  | .column s t n, .column s' t' n' => s == s' && t == t' && n == n'
  | .unary o a, .unary p b => o == p && a.same b
  | .binary a o b, .binary a' p b' => a.same a' && o == p && b.same b'
  | .like a o b e n, .like a' p b' e' n' =>
    a.same a' && o == p && b.same b' && sameExpr? e e' && n == n'
  | .isNull a n, .isNull b m => a.same b && n == m
  | .between a b c n, .between a' b' c' m => a.same a' && b.same b' && c.same c' && n == m
  | .within a s n, .within b t m => a.same b && s.same t && n == m
  | .call c, .call d => c.same d
  | .cast a t, .cast b u => a.same b && t == u
  | .caseWhen o w e, .caseWhen o' w' e' =>
    sameExpr? o o' && sameBranches w w' && sameExpr? e e'
  | .collate a c, .collate b d => a.same b && c == d
  | .existsRow q, .existsRow r => q.same r
  | .subquery q, .subquery r => q.same r
  | .paren a, .paren b => a.same b
  | _, _ => false
termination_by structural a => a

/-- Whether two calls are the same. -/
def FunctionCall.same : FunctionCall → FunctionCall → Bool
  | ⟨n, a⟩, ⟨m, b⟩ => n == m && a.same b
termination_by structural a => a

/-- Whether two argument lists are the same. -/
def CallArgs.same : CallArgs → CallArgs → Bool
  | .star, .star => true
  | .list d as, .list e bs => d == e && sameExprs as bs
  | _, _ => false
termination_by structural a => a

/-- Whether two sets are the same. -/
def InSet.same : InSet → InSet → Bool
  | .values as, .values bs => sameExprs as bs
  | .query q, .query r => q.same r
  | _, _ => false
termination_by structural a => a

/-- Whether two branches are the same. -/
def WhenBranch.same : WhenBranch → WhenBranch → Bool
  | ⟨c, r⟩, ⟨d, s⟩ => c.same d && r.same s
termination_by structural a => a

/-- Whether two result columns are the same. -/
def ResultColumn.same : ResultColumn → ResultColumn → Bool
  | .all, .all => true
  | .allOf t, .allOf u => t == u
  | .expr a n, .expr b m => a.same b && n == m
  | _, _ => false
termination_by structural a => a

/-- Whether two ordering terms are the same. -/
def OrderingTerm.same : OrderingTerm → OrderingTerm → Bool
  | ⟨a, d⟩, ⟨b, e⟩ => a.same b && d == e
termination_by structural a => a

/-- Whether two limits are the same. -/
def LimitClause.same : LimitClause → LimitClause → Bool
  | ⟨a, o⟩, ⟨b, p⟩ => a.same b && sameExpr? o p
termination_by structural a => a

/-- Whether two queries are the same. -/
def Select.same : Select → Select → Bool
  | ⟨d, c, s, f, g, h, o, l⟩, ⟨d', c', s', f', g', h', o', l'⟩ =>
    d == d' && sameColumns c c' && s == s' && sameExpr? f f' && sameExprs g g' &&
      sameExpr? h h' && sameTerms o o' && sameLimit? l l'
termination_by structural a => a

/-- Whether two lists of expressions are the same. -/
def sameExprs : List Expr → List Expr → Bool
  | [], [] => true
  | a :: as, b :: bs => a.same b && sameExprs as bs
  | _, _ => false
termination_by structural a => a

/-- Whether two optional expressions are the same. -/
def sameExpr? : Option Expr → Option Expr → Bool
  | none, none => true
  | some a, some b => a.same b
  | _, _ => false
termination_by structural a => a

/-- Whether two lists of branches are the same. -/
def sameBranches : List WhenBranch → List WhenBranch → Bool
  | [], [] => true
  | a :: as, b :: bs => a.same b && sameBranches as bs
  | _, _ => false
termination_by structural a => a

/-- Whether two lists of result columns are the same. -/
def sameColumns : List ResultColumn → List ResultColumn → Bool
  | [], [] => true
  | a :: as, b :: bs => a.same b && sameColumns as bs
  | _, _ => false
termination_by structural a => a

/-- Whether two lists of ordering terms are the same. -/
def sameTerms : List OrderingTerm → List OrderingTerm → Bool
  | [], [] => true
  | a :: as, b :: bs => a.same b && sameTerms as bs
  | _, _ => false
termination_by structural a => a

/-- Whether two optional limits are the same. -/
def sameLimit? : Option LimitClause → Option LimitClause → Bool
  | none, none => true
  | some a, some b => a.same b
  | _, _ => false
termination_by structural a => a

end

/-! ## Correctness -/

mutual

/-- `Expr.same` is equality, by recursion together with the parts of expressions below. -/
theorem Expr.same_iff : ∀ a b : Expr, a.same b = true ↔ a = b
  | .literal _, b | .parameter _, b | .column _ _ _, b => by
    cases b <;> simp [Expr.same, and_assoc]
  | .unary _ x, b => by
    cases b <;> simp [Expr.same, Expr.same_iff x]
  | .binary x _ y, b => by
    cases b <;> simp [Expr.same, Expr.same_iff x, Expr.same_iff y, and_assoc]
  | .like x _ y e _, b => by
    cases b <;> simp [Expr.same, Expr.same_iff x, Expr.same_iff y, sameExpr?_iff e, and_assoc]
  | .isNull x _, b => by
    cases b <;> simp [Expr.same, Expr.same_iff x]
  | .between x y z _, b => by
    cases b <;> simp [Expr.same, Expr.same_iff x, Expr.same_iff y, Expr.same_iff z, and_assoc]
  | .within x s _, b => by
    cases b <;> simp [Expr.same, Expr.same_iff x, InSet.same_iff s, and_assoc]
  | .call c, b => by
    cases b <;> simp [Expr.same, FunctionCall.same_iff c]
  | .cast x _, b => by
    cases b <;> simp [Expr.same, Expr.same_iff x]
  | .caseWhen o w e, b => by
    cases b <;> simp [Expr.same, sameExpr?_iff o, sameBranches_iff w, sameExpr?_iff e, and_assoc]
  | .collate x _, b => by
    cases b <;> simp [Expr.same, Expr.same_iff x]
  | .existsRow q, b => by
    cases b <;> simp [Expr.same, Select.same_iff q]
  | .subquery q, b => by
    cases b <;> simp [Expr.same, Select.same_iff q]
  | .paren x, b => by
    cases b <;> simp [Expr.same, Expr.same_iff x]
termination_by structural a => a

theorem FunctionCall.same_iff : ∀ a b : FunctionCall, a.same b = true ↔ a = b
  | ⟨_, args⟩, ⟨_, _⟩ => by simp [FunctionCall.same, CallArgs.same_iff args]
termination_by structural a => a

theorem CallArgs.same_iff : ∀ a b : CallArgs, a.same b = true ↔ a = b
  | .star, b => by cases b <;> simp [CallArgs.same]
  | .list _ args, b => by cases b <;> simp [CallArgs.same, sameExprs_iff args]
termination_by structural a => a

theorem InSet.same_iff : ∀ a b : InSet, a.same b = true ↔ a = b
  | .values items, b => by cases b <;> simp [InSet.same, sameExprs_iff items]
  | .query q, b => by cases b <;> simp [InSet.same, Select.same_iff q]
termination_by structural a => a

theorem WhenBranch.same_iff : ∀ a b : WhenBranch, a.same b = true ↔ a = b
  | ⟨c, r⟩, ⟨_, _⟩ => by simp [WhenBranch.same, Expr.same_iff c, Expr.same_iff r]
termination_by structural a => a

theorem ResultColumn.same_iff : ∀ a b : ResultColumn, a.same b = true ↔ a = b
  | .all, b | .allOf _, b => by cases b <;> simp [ResultColumn.same]
  | .expr x _, b => by cases b <;> simp [ResultColumn.same, Expr.same_iff x]
termination_by structural a => a

theorem OrderingTerm.same_iff : ∀ a b : OrderingTerm, a.same b = true ↔ a = b
  | ⟨k, _⟩, ⟨_, _⟩ => by simp [OrderingTerm.same, Expr.same_iff k]
termination_by structural a => a

theorem LimitClause.same_iff : ∀ a b : LimitClause, a.same b = true ↔ a = b
  | ⟨l, o⟩, ⟨_, _⟩ => by simp [LimitClause.same, Expr.same_iff l, sameExpr?_iff o]
termination_by structural a => a

theorem Select.same_iff : ∀ a b : Select, a.same b = true ↔ a = b
  | ⟨_, c, _, f, g, h, o, l⟩, ⟨_, _, _, _, _, _, _, _⟩ => by
    simp [Select.same, sameColumns_iff c, sameExpr?_iff f, sameExprs_iff g, sameExpr?_iff h,
      sameTerms_iff o, sameLimit?_iff l, and_assoc]
termination_by structural a => a

/-- The lists and the parts that there may be are compared element by element. -/
theorem sameExprs_iff : ∀ as bs : List Expr, sameExprs as bs = true ↔ as = bs
  | [], bs => by cases bs <;> simp [sameExprs]
  | a :: as, bs => by cases bs <;> simp [sameExprs, Expr.same_iff a, sameExprs_iff as]
termination_by structural a => a

theorem sameExpr?_iff : ∀ a b : Option Expr, sameExpr? a b = true ↔ a = b
  | none, b => by cases b <;> simp [sameExpr?]
  | some a, b => by cases b <;> simp [sameExpr?, Expr.same_iff a]
termination_by structural a => a

theorem sameBranches_iff : ∀ as bs : List WhenBranch, sameBranches as bs = true ↔ as = bs
  | [], bs => by cases bs <;> simp [sameBranches]
  | a :: as, bs => by cases bs <;> simp [sameBranches, WhenBranch.same_iff a, sameBranches_iff as]
termination_by structural a => a

theorem sameColumns_iff : ∀ as bs : List ResultColumn, sameColumns as bs = true ↔ as = bs
  | [], bs => by cases bs <;> simp [sameColumns]
  | a :: as, bs => by cases bs <;> simp [sameColumns, ResultColumn.same_iff a, sameColumns_iff as]
termination_by structural a => a

theorem sameTerms_iff : ∀ as bs : List OrderingTerm, sameTerms as bs = true ↔ as = bs
  | [], bs => by cases bs <;> simp [sameTerms]
  | a :: as, bs => by cases bs <;> simp [sameTerms, OrderingTerm.same_iff a, sameTerms_iff as]
termination_by structural a => a

theorem sameLimit?_iff : ∀ a b : Option LimitClause, sameLimit? a b = true ↔ a = b
  | none, b => by cases b <;> simp [sameLimit?]
  | some a, b => by cases b <;> simp [sameLimit?, LimitClause.same_iff a]
termination_by structural a => a

end

/-! ## Instances -/

instance : DecidableEq Expr := fun a b => decidable_of_iff _ (a.same_iff b)
instance : DecidableEq FunctionCall := fun a b => decidable_of_iff _ (a.same_iff b)
instance : DecidableEq CallArgs := fun a b => decidable_of_iff _ (a.same_iff b)
instance : DecidableEq InSet := fun a b => decidable_of_iff _ (a.same_iff b)
instance : DecidableEq WhenBranch := fun a b => decidable_of_iff _ (a.same_iff b)
instance : DecidableEq ResultColumn := fun a b => decidable_of_iff _ (a.same_iff b)
instance : DecidableEq OrderingTerm := fun a b => decidable_of_iff _ (a.same_iff b)
instance : DecidableEq LimitClause := fun a b => decidable_of_iff _ (a.same_iff b)
instance : DecidableEq Select := fun a b => decidable_of_iff _ (a.same_iff b)

end SqlGrammar
