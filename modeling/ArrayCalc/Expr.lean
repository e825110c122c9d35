import ArrayCalc.Value

/-!
# Expression trees

A tree is what a statement means, with its vocabulary resolved: a name is a variable of the session
or a numbered slot of the operator that is being defined, and a word between operands is an
operator.  Operators are kept by name, so that a tree keeps its meaning when the operator it names
is redefined.
-/

namespace ArrayCalc

inductive Expr where
  /-- A number or a character. -/
  | constant (s : Scalar)
  /-- A text of any length but one. -/
  | string (text : List CodePoint)
  | sessionVar (name : String)
  /-- The slot counts from one in the frame of the call. -/
  | slotVar (name : String) (slot : Nat)
  | unary (operator : String) (right : Expr)
  | binary (operator : String) (left right : Expr)
  | assign (target value : Expr)
  | conditional (condition result : Expr)
  | index (base : Expr) (subscripts : List Expr)
  /-- Operands side by side, which make one vector. -/
  | strand (items : List Expr)
  /-- A statement or a subscript that was left out. -/
  | empty

namespace Expr

mutual

def decEq (a b : Expr) : Decidable (a = b) := by
  cases a <;> cases b <;> try (refine isFalse ?_; intro h; cases h; done)
  case constant.constant s t =>
    exact decidable_of_iff (s = t) (by simp)
  case string.string s t =>
    exact decidable_of_iff (s = t) (by simp)
  case sessionVar.sessionVar s t =>
    exact decidable_of_iff (s = t) (by simp)
  case slotVar.slotVar s i t j =>
    exact decidable_of_iff (s = t ∧ i = j) (by simp)
  case unary.unary o a p b =>
    exact match decEq a b with
      | isTrue h => decidable_of_iff (o = p) (by simp [h])
      | isFalse h => isFalse (by simp [h])
  case binary.binary o a c p b d =>
    exact match decEq a b, decEq c d with
      | isTrue h, isTrue k => decidable_of_iff (o = p) (by simp [h, k])
      | isFalse h, _ => isFalse (by simp [h])
      | _, isFalse k => isFalse (by simp [k])
  case assign.assign a c b d =>
    exact match decEq a b, decEq c d with
      | isTrue h, isTrue k => isTrue (by simp [h, k])
      | isFalse h, _ => isFalse (by simp [h])
      | _, isFalse k => isFalse (by simp [k])
  case conditional.conditional a c b d =>
    exact match decEq a b, decEq c d with
      | isTrue h, isTrue k => isTrue (by simp [h, k])
      | isFalse h, _ => isFalse (by simp [h])
      | _, isFalse k => isFalse (by simp [k])
  case index.index a as b bs =>
    exact match decEq a b, decEqList as bs with
      | isTrue h, isTrue k => isTrue (by simp [h, k])
      | isFalse h, _ => isFalse (by simp [h])
      | _, isFalse k => isFalse (by simp [k])
  case strand.strand as bs =>
    exact match decEqList as bs with
      | isTrue h => isTrue (by simp [h])
      | isFalse h => isFalse (by simp [h])
  case empty.empty => exact isTrue rfl

def decEqList (as bs : List Expr) : Decidable (as = bs) :=
  match as, bs with
  | [], [] => isTrue rfl
  | [], _ :: _ => isFalse (by simp)
  | _ :: _, [] => isFalse (by simp)
  | a :: as, b :: bs =>
    match decEq a b, decEqList as bs with
    | isTrue h, isTrue k => isTrue (by simp [h, k])
    | isFalse h, _ => isFalse (by simp [h])
    | _, isFalse k => isFalse (by simp [k])

end

instance : DecidableEq Expr := decEq

/-- What can stand on the left of an assignment. -/
def isAssignable : Expr → Bool
  | .sessionVar _ | .slotVar _ _ | .index _ _ => true
  | _ => false

/-- A statement whose value is not printed. -/
def isSilent : Expr → Bool
  | .assign _ _ => true
  | _ => false

end Expr

end ArrayCalc
