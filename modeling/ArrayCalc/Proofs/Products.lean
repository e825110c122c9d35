import ArrayCalc.Proofs.BulkRoutes
import ArrayCalc.Proofs.Reachable

/-!
# Products and what they are made of

A product pairs the elements of its operands by itself, repeats a scalar by itself and applies its
second operator pair by pair, or takes a bulk route.  All of that comes to the same as to apply the
operator to the whole operands, if it is an elementwise primitive: the inner product is the reduction
of what that gives, and the outer product with a scalar is what it gives.
-/

namespace ArrayCalc

namespace BinaryPrimitive

variable {op : BinaryPrimitive}

end BinaryPrimitive

namespace Evaluation

variable {call : Nat → Calling} {toll : Nat} {w : Workspace} {op : BinaryPrimitive} {f g : String}
  {l r v : Value} {α β : Type}

/-! ## § Element by element -/

variable [Machine]

end Evaluation

namespace Session

open Evaluation

variable {settings : Settings} {w now now' : Workspace} {f g : String} {op : BinaryPrimitive}
  {l r v : Value}

/-- Between two lines. -/
theorem Reachable.moment (hs : settings.check = .ok settings) (h : Reachable settings w) :
    Moment w w := by
  exact ⟨rfl, fun _ _ => rfl, (h.idle hs).steady.depth⟩

/-- What a definition of an operator leads to that keeps its left operand in a variable. -/
def keeping : Workspace :=
  (respond (Source.ofText "op a keep b = last = a; b\n".toList) (Workspace.ofSettings {})).2.2

end Session

end ArrayCalc
