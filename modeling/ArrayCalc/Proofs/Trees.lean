import ArrayCalc.Proofs.Canonical
import ArrayCalc.Proofs.Reads

/-!
# Trees of a line

What a reader makes of an expression is grown: wherever a part needs a value there is a tree that
can have one, and every operator that is applied is known.  Only between semicolons something may be
missing, and only a statement may be conditional.

A tree stays grown when more operators become known.  A fresh tree, one that has just been read, has
more to it: its literals are canonical, and no session variable that it names has the name of an
operator, unless that is `o`.  Such a name can become that of an operator later.
-/

namespace ArrayCalc

namespace Expr

variable {known more : Signature → Bool} {e : Expr} {es : List Expr}

/-- A product that looks like a fold lacks its second operator when the mark is taken away.  The
scanner puts `*./` together from `*` and `/`, and the mark is what makes a reader take it for a unary
operator. -/
def FoldsAlone (word : String) : Prop :=
  OperatorWord.isProduct word = true → ∀ base mark,
    OperatorWord.splitMark? word = some (base, mark) →
      ∃ left, OperatorWord.operators base = [left, ""]

/-- A tree that an expression can be read as, with operators that are known. -/
inductive Grown (known : Signature → Bool) : Expr → Prop
  | constant (s : Scalar) : Grown known (.constant s)
  | string (text : List CodePoint) : Grown known (.string text)
  | sessionVar (name : String) : Grown known (.sessionVar name)
  | slotVar (name : String) (slot : Nat) : Grown known (.slotVar name slot)
  /-- A word that is no fold has to be a unary operator itself, even if it looks like a product. -/
  | unary {word : String} {right : Expr}
      (needs : ∀ s ∈ OperatorWord.needs word .unary, known s = true)
      (itself : OperatorWord.isFold word = true ∨ known ⟨word, .unary⟩ = true)
      (folded : FoldsAlone word) (grown : Grown known right) : Grown known (.unary word right)
  | binary {word : String} {left right : Expr}
      (needs : ∀ s ∈ OperatorWord.needs word .binary, known s = true)
      (left_grown : Grown known left) (right_grown : Grown known right) :
      Grown known (.binary word left right)
  | assign {target value : Expr} (assignable : target.isAssignable = true)
      (target_grown : Grown known target) (grown : Grown known value) :
      Grown known (.assign target value)
  /-- Subscripts may be left out. -/
  | index {base : Expr} {subscripts : List Expr} (base_grown : Grown known base)
      (grown : ∀ e ∈ subscripts, e ≠ .empty → Grown known e) : Grown known (.index base subscripts)
  | strand {items : List Expr} (grown : ∀ e ∈ items, Grown known e) : Grown known (.strand items)

/-- A tree that a statement can be read as, with operators that are known. -/
inductive Stated (known : Signature → Bool) : Expr → Prop
  | empty : Stated known .empty
  | plain {e : Expr} (grown : Grown known e) : Stated known e
  | conditional {condition result : Expr} (condition_grown : Grown known condition)
      (grown : Grown known result) : Stated known (.conditional condition result)

theorem Grown.mono (h : Grown known e) (sub : ∀ s, known s = true → more s = true) :
    Grown more e := by
  induction h with
  | constant s => exact .constant s
  | string text => exact .string text
  | sessionVar name => exact .sessionVar name
  | slotVar name slot => exact .slotVar name slot
  | unary needs itself folded _ ih =>
    exact .unary (fun s hs => sub s (needs s hs)) (itself.imp_right (sub _)) folded ih
  | binary needs _ _ left right => exact .binary (fun s hs => sub s (needs s hs)) left right
  | assign assignable _ _ target value => exact .assign assignable target value
  | index _ _ base subscripts => exact .index base subscripts
  | strand _ items => exact .strand items

theorem Stated.mono (h : Stated known e) (sub : ∀ s, known s = true → more s = true) :
    Stated more e := by
  cases h with
  | empty => exact .empty
  | plain grown => exact .plain (grown.mono sub)
  | conditional condition result => exact .conditional (condition.mono sub) (result.mono sub)

/-! ## § Operators -/

/-- Trees that apply operators only that are known. -/
def Applies (known : Signature → Bool) (nodes : List Expr) : Prop :=
  ∀ node ∈ nodes, ∀ s ∈ node.applied, known s = true

theorem Applies.append {nodes others : List Expr} (h : Applies known nodes)
    (k : Applies known others) : Applies known (nodes ++ others) := by
  intro node hn
  rcases List.mem_append.1 hn with hn | hn
  · exact h node hn
  · exact k node hn

theorem Applies.cons {nodes : List Expr} (h : ∀ s ∈ e.applied, known s = true)
    (k : Applies known nodes) : Applies known (e :: nodes) :=
  List.forall_mem_cons.2 ⟨h, k⟩

theorem forall_mem_nodesOf {P : Expr → Prop} (h : ∀ e ∈ es, ∀ node ∈ e.nodes, P node) :
    ∀ node ∈ nodesOf es, P node := by
  intro node hn
  obtain ⟨e, he, hn⟩ := mem_nodesOf.1 hn
  exact h e he node hn

theorem Applies.nodesOf (h : ∀ e ∈ es, Applies known e.nodes) : Applies known (nodesOf es) :=
  forall_mem_nodesOf h

theorem Grown.applies (h : Grown known e) : Applies known e.nodes := by
  induction h with
  | constant | string | sessionVar | slotVar => exact .cons nofun nofun
  | unary needs _ _ _ ih => exact .cons needs ih
  | binary needs _ _ left right => exact .cons needs (left.append right)
  | assign _ _ _ target value => exact .cons nofun (target.append value)
  | index _ _ base subscripts =>
    refine .cons nofun (base.append (.nodesOf fun e he => ?_))
    by_cases left_out : e = .empty
    · rw [left_out]
      exact .cons nofun nofun
    · exact subscripts e he left_out
  | strand _ items => exact .cons nofun (.nodesOf items)

theorem Stated.applies (h : Stated known e) : Applies known e.nodes := by
  cases h with
  | empty => exact .cons nofun nofun
  | plain grown => exact grown.applies
  | conditional condition result => exact .cons nofun (condition.applies.append result.applies)

/-! ## § Leaves -/

/-- The value that a tree stands for by itself. -/
def literal? : Expr → Option Value
  | .constant s => some (.scalar s)
  | .string text => some (.ofText text)
  | _ => none

/-- A tree whose value is canonical, if it is a literal, and whose name is not that of an operator,
if it is a session variable.  Only `o` can be both. -/
structure Leaf (known : Signature → Bool) (e : Expr) : Prop where
  literal : ∀ v, e.literal? = some v → v.Canonical
  named : ∀ name, e = .sessionVar name → name = "o" ∨ ∀ arity, known ⟨name, arity⟩ = false

/-- An expression that has just been read, with operators that are known. -/
structure Fresh (known : Signature → Bool) (e : Expr) : Prop where
  grown : Grown known e
  leaves : ∀ node ∈ e.nodes, Leaf known node

/-- A statement that has just been read, with operators that are known. -/
structure FreshStatement (known : Signature → Bool) (e : Expr) : Prop where
  stated : Stated known e
  leaves : ∀ node ∈ e.nodes, Leaf known node

/-- Nothing is asked of any other tree. -/
theorem Leaf.other (no_literal : e.literal? = none) (no_name : ∀ name, e ≠ .sessionVar name) :
    Leaf known e where
  literal _ hv := nomatch no_literal.symm.trans hv
  named name hn := absurd hn (no_name name)

namespace Fresh

theorem constant {s : Scalar} (canonical : s.Canonical) : Fresh known (.constant s) := by
  refine ⟨.constant s, List.forall_mem_singleton.2 ⟨fun v hv => ?_, fun _ hn => nomatch hn⟩⟩
  obtain rfl := Option.some.inj hv
  exact canonical

theorem string (text : List CodePoint) : Fresh known (.string text) := by
  refine ⟨.string text, List.forall_mem_singleton.2 ⟨fun v hv => ?_, fun _ hn => nomatch hn⟩⟩
  obtain rfl := Option.some.inj hv
  exact Value.canonical_ofText text

theorem sessionVar {name : String} (named : name = "o" ∨ ∀ arity, known ⟨name, arity⟩ = false) :
    Fresh known (.sessionVar name) := by
  refine ⟨.sessionVar name, List.forall_mem_singleton.2 ⟨?_, ?_⟩⟩
  · exact fun _ hv => nomatch hv
  · rintro _ ⟨⟩
    exact named

theorem slotVar (name : String) (slot : Nat) : Fresh known (.slotVar name slot) :=
  ⟨.slotVar name slot, List.forall_mem_singleton.2 (.other rfl nofun)⟩

theorem unary {word : String} {right : Expr}
    (needs : ∀ s ∈ OperatorWord.needs word .unary, known s = true)
    (itself : OperatorWord.isFold word = true ∨ known ⟨word, .unary⟩ = true)
    (folded : FoldsAlone word) (fresh : Fresh known right) : Fresh known (.unary word right) :=
  ⟨.unary needs itself folded fresh.grown, List.forall_mem_cons.2 ⟨.other rfl nofun, fresh.leaves⟩⟩

theorem binary {word : String} {left right : Expr}
    (needs : ∀ s ∈ OperatorWord.needs word .binary, known s = true) (hl : Fresh known left)
    (hr : Fresh known right) : Fresh known (.binary word left right) where
  grown := .binary needs hl.grown hr.grown
  leaves :=
    List.forall_mem_cons.2 ⟨.other rfl nofun, List.forall_mem_append.2 ⟨hl.leaves, hr.leaves⟩⟩

theorem assign {target value : Expr} (assignable : target.isAssignable = true)
    (ht : Fresh known target) (hv : Fresh known value) : Fresh known (.assign target value) where
  grown := .assign assignable ht.grown hv.grown
  leaves :=
    List.forall_mem_cons.2 ⟨.other rfl nofun, List.forall_mem_append.2 ⟨ht.leaves, hv.leaves⟩⟩

theorem index {base : Expr} {subscripts : List Expr} (hb : Fresh known base)
    (fresh : ∀ e ∈ subscripts, e ≠ .empty → Fresh known e) :
    Fresh known (.index base subscripts) := by
  refine ⟨.index hb.grown fun e he there => (fresh e he there).grown, ?_⟩
  refine List.forall_mem_cons.2 ⟨.other rfl nofun, List.forall_mem_append.2 ⟨hb.leaves, ?_⟩⟩
  refine forall_mem_nodesOf fun e he => ?_
  by_cases left_out : e = .empty
  · rw [left_out]
    exact List.forall_mem_singleton.2 (.other rfl nofun)
  · exact (fresh e he left_out).leaves

theorem strand {items : List Expr} (fresh : ∀ e ∈ items, Fresh known e) :
    Fresh known (.strand items) where
  grown := .strand fun e he => (fresh e he).grown
  leaves :=
    List.forall_mem_cons.2 ⟨.other rfl nofun, forall_mem_nodesOf fun e he => (fresh e he).leaves⟩

end Fresh

namespace FreshStatement

theorem empty : FreshStatement known .empty :=
  ⟨.empty, List.forall_mem_singleton.2 (.other rfl nofun)⟩

theorem plain (fresh : Fresh known e) : FreshStatement known e :=
  ⟨.plain fresh.grown, fresh.leaves⟩

theorem conditional {condition result : Expr} (hc : Fresh known condition)
    (hr : Fresh known result) : FreshStatement known (.conditional condition result) where
  stated := .conditional hc.grown hr.grown
  leaves :=
    List.forall_mem_cons.2 ⟨.other rfl nofun, List.forall_mem_append.2 ⟨hc.leaves, hr.leaves⟩⟩

end FreshStatement

end Expr

end ArrayCalc
