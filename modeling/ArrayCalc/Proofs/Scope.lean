import ArrayCalc.Proofs.OperatorWords
import ArrayCalc.Workspace

/-!
# Scopes

What a tree names is read off its nodes: variables of the session, slots of the frame, and operators
by name and arity.  An operator word names the operators that it is made of; the `o` of an outer
product is none of them.

The scope of a stored operator is right when every slot that its body names is the slot of that
name, and when the variables that it is said to take from the session are those that it does.
-/

namespace ArrayCalc

namespace OperatorWord

/-- The operators that the parts of a product name. -/
def partNeeds : List String → List Signature
  | "o" :: second :: others => (second :: others).map (⟨·, .binary⟩)
  | parts => parts.map (⟨·, .binary⟩)

/-- The operators that a word names where it is applied to one operand or to two.  A product names
its halves in either case, even if a slash at its end makes it look like a fold. -/
def needs (word : String) (arity : Arity) : List Signature :=
  if isProduct word then partNeeds (operators word)
  else match arity, splitMark? word with
    | .unary, some (base, _) => [⟨base, .binary⟩]
    | _, _ => [⟨word, arity⟩]

theorem eq_binary_of_mem_partNeeds {parts : List String} {s : Signature}
    (h : s ∈ partNeeds parts) : (⟨s.name, .binary⟩ : Signature) = s := by
  unfold partNeeds at h
  split at h
  all_goals
    obtain ⟨name, -, rfl⟩ := List.mem_map.1 h
    rfl

theorem mem_partNeeds_pair {left right : String} {s : Signature} :
    s ∈ partNeeds [left, right] ↔ (left ≠ "o" ∧ s = ⟨left, .binary⟩) ∨ s = ⟨right, .binary⟩ := by
  unfold partNeeds
  split
  next h =>
    injection h with hl h
    injection h with hr h
    subst hl hr h
    simp
  next hne =>
    have : left ≠ "o" := fun e => hne right [] (by rw [e])
    simp [this]

variable {word base reducer combiner : String} {others : List String} {mark : Char}

theorem toList_of_splitMark? (h : splitMark? word = some (base, mark)) :
    word.toList = base.toList ++ [mark] ∧ (mark = '/' ∨ mark = '\\') := by
  unfold splitMark? at h
  split at h
  next c second rest hr =>
    split at h
    next hm =>
      obtain ⟨rfl, rfl⟩ := Prod.mk.inj (Option.some.inj h)
      refine ⟨?_, hm⟩
      rw [String.toList_ofList, ← List.reverse_cons, ← hr, List.reverse_reverse]
    next => exact nomatch h
  next => exact nomatch h

/-- The mark of a fold is no point. -/
theorem isProduct_of_splitMark? (h : splitMark? word = some (base, mark)) :
    isProduct word = isProduct base := by
  obtain ⟨hw, hm⟩ := toList_of_splitMark? h
  unfold isProduct
  rw [hw, Bool.eq_iff_iff, List.contains_iff_mem, List.contains_iff_mem, List.mem_append,
    List.mem_singleton]
  constructor
  · rintro (hp | rfl)
    · exact hp
    · rcases hm with hm | hm <;> exact absurd hm (by decide)
  · exact .inl

theorem operators_ne_nil (word : String) : operators word ≠ [] := by
  intro h
  exact splitPoints_ne_nil _ (List.map_eq_nil_iff.1 h)

theorem partNeeds_singleton (name : String) : partNeeds [name] = [⟨name, .binary⟩] := by
  unfold partNeeds
  split
  next h => exact nomatch (List.cons.inj h).2
  next => rfl

/-- A word names the same operators wherever it has two operands, be it a product or not. -/
theorem needs_binary (word : String) : needs word .binary = partNeeds (operators word) := by
  unfold needs
  split
  next => rfl
  next hp =>
    have single : operators word = [word] := by
      refine operators_eq_singleton fun hm => hp ?_
      rw [isProduct, List.contains_iff_mem]
      exact hm
    rw [single, partNeeds_singleton]

/-- Only an `o` in front of other operators is none itself. -/
theorem partNeeds_cons_cons :
    partNeeds (reducer :: combiner :: others)
      = (if reducer = "o" then combiner :: others else reducer :: combiner :: others).map
          (⟨·, .binary⟩) := by
  unfold partNeeds
  split
  next h =>
    obtain ⟨rfl, rest⟩ := List.cons.inj h
    rw [if_pos rfl, rest]
  next other =>
    rw [if_neg]
    rintro rfl
    exact other _ _ rfl

theorem partNeeds_subset (parts : List String) : partNeeds parts ⊆ parts.map (⟨·, .binary⟩) := by
  intro s hs
  unfold partNeeds at hs
  split at hs
  next =>
    rw [List.map_cons]
    exact List.mem_cons_of_mem _ hs
  next => exact hs

theorem map_subset_partNeeds :
    (combiner :: others).map (⟨·, .binary⟩) ⊆ partNeeds (reducer :: combiner :: others) := by
  intro s hs
  rw [partNeeds_cons_cons]
  split
  · exact hs
  · rw [List.map_cons]
    exact List.mem_cons_of_mem _ hs

/-- The product behind a point needs nothing that the whole product does not need. -/
theorem partNeeds_tail_subset :
    partNeeds (combiner :: others) ⊆ partNeeds (reducer :: combiner :: others) :=
  fun _ hs => map_subset_partNeeds (partNeeds_subset _ hs)

theorem eq_empty_of_product (h : (product (combiner :: others)).isEmpty = true) :
    combiner = "" := by
  rw [String.isEmpty_iff, product] at h
  have chars := congrArg String.toList h
  rw [String.toList_intercalate] at chars
  rw [← String.toList_inj]
  cases others with
  | nil => simpa using chars
  | cons second others =>
    rw [List.map_cons, List.map_cons, List.intercalate_cons_cons] at chars
    simp at chars

end OperatorWord

namespace Expr

/-! ## § The nodes of a tree -/

mutual

/-- A tree and all trees within. -/
def nodes : Expr → List Expr
  | .constant s => [.constant s]
  | .string text => [.string text]
  | .sessionVar name => [.sessionVar name]
  | .slotVar name slot => [.slotVar name slot]
  | .unary operator right => .unary operator right :: right.nodes
  | .binary operator left right => .binary operator left right :: (left.nodes ++ right.nodes)
  | .assign target value => .assign target value :: (target.nodes ++ value.nodes)
  | .conditional condition result =>
    .conditional condition result :: (condition.nodes ++ result.nodes)
  | .index base subscripts => .index base subscripts :: (base.nodes ++ nodesOf subscripts)
  | .strand items => .strand items :: nodesOf items
  | .empty => [.empty]

/-- The trees of a row and all trees within. -/
def nodesOf : List Expr → List Expr
  | [] => []
  | e :: rest => e.nodes ++ nodesOf rest

end

/-- The operators that a tree applies to its parts. -/
def applied : Expr → List Signature
  | .unary operator _ => OperatorWord.needs operator .unary
  | .binary operator _ _ => OperatorWord.needs operator .binary
  | _ => []

/-- The words that a tree itself is written with. -/
def words : Expr → List String
  | .sessionVar name | .slotVar name _ => [name]
  | .unary operator _ | .binary operator _ _ => [operator]
  | _ => []

/-- Trees of which all words stay on their line. -/
def OnLine (nodes : List Expr) : Prop := ∀ node ∈ nodes, ∀ word ∈ node.words, '\n' ∉ word.toList

/-- The variable of the session that a tree assigns. -/
def assigned : Expr → List String
  | .assign (.sessionVar name) _ => [name]
  | _ => []

theorem nodesOf_append (es fs : List Expr) : nodesOf (es ++ fs) = nodesOf es ++ nodesOf fs := by
  induction es with
  | nil => rfl
  | cons e es ih => rw [List.cons_append, nodesOf, nodesOf, ih, List.append_assoc]

theorem nodesOf_singleton (e : Expr) : nodesOf [e] = e.nodes := List.append_nil _

theorem self_mem_nodes (e : Expr) : e ∈ e.nodes := by
  cases e <;> simp [nodes]

theorem mem_nodesOf {node : Expr} {es : List Expr} :
    node ∈ nodesOf es ↔ ∃ e ∈ es, node ∈ e.nodes := by
  induction es with
  | nil => simp [nodesOf]
  | cons e es ih => simp [nodesOf, ih]

theorem nodes_subset_nodesOf {e : Expr} {es : List Expr} (h : e ∈ es) : e.nodes ⊆ nodesOf es :=
  fun _ hn => mem_nodesOf.2 ⟨e, h, hn⟩

section

variable {e part : Expr} {ns ms : List Expr}

theorem subset_cons_of_mem (he : e.nodes = e :: ns) (hn : part ∈ ns → part.nodes ⊆ ns)
    (h : part ∈ e.nodes) : part.nodes ⊆ e.nodes := by
  rw [he] at h
  rcases List.mem_cons.1 h with rfl | h
  · exact List.Subset.refl _
  · rw [he]
    exact List.subset_cons_of_subset _ (hn h)

theorem subset_append_of_mem (hn : part ∈ ns → part.nodes ⊆ ns) (hm : part ∈ ms → part.nodes ⊆ ms)
    (h : part ∈ ns ++ ms) : part.nodes ⊆ ns ++ ms := by
  rcases List.mem_append.1 h with h | h
  · exact List.subset_append_of_subset_left _ (hn h)
  · exact List.subset_append_of_subset_right _ (hm h)

end

mutual

/-- What lies within a part of a tree lies within the tree. -/
theorem nodes_subset_of_mem {part : Expr} (e : Expr) (h : part ∈ e.nodes) :
    part.nodes ⊆ e.nodes := by
  cases e with
  | constant | string | sessionVar | slotVar | empty => exact subset_cons_of_mem rfl nofun h
  | unary operator right => exact subset_cons_of_mem rfl (nodes_subset_of_mem right) h
  | binary operator left right =>
    refine subset_cons_of_mem rfl (subset_append_of_mem ?_ ?_) h
    · exact nodes_subset_of_mem left
    · exact nodes_subset_of_mem right
  | assign target value =>
    refine subset_cons_of_mem rfl (subset_append_of_mem ?_ ?_) h
    · exact nodes_subset_of_mem target
    · exact nodes_subset_of_mem value
  | conditional condition result =>
    refine subset_cons_of_mem rfl (subset_append_of_mem ?_ ?_) h
    · exact nodes_subset_of_mem condition
    · exact nodes_subset_of_mem result
  | index base subscripts =>
    refine subset_cons_of_mem rfl (subset_append_of_mem ?_ ?_) h
    · exact nodes_subset_of_mem base
    · exact nodesOf_subset_of_mem subscripts
  | strand items => exact subset_cons_of_mem rfl (nodesOf_subset_of_mem items) h

theorem nodesOf_subset_of_mem {part : Expr} (es : List Expr) (h : part ∈ nodesOf es) :
    part.nodes ⊆ nodesOf es := by
  cases es with
  | nil => exact nomatch h
  | cons e es =>
    exact subset_append_of_mem (nodes_subset_of_mem e) (nodesOf_subset_of_mem es) h

end

/-- The variable that is assigned is a part of the tree. -/
theorem sessionVar_mem_of_assigned {e node : Expr} {name : String} (hn : node ∈ e.nodes)
    (ha : name ∈ node.assigned) : .sessionVar name ∈ e.nodes := by
  unfold assigned at ha
  split at ha
  next other value =>
    obtain rfl := List.mem_singleton.1 ha
    exact nodes_subset_of_mem e hn (by simp [nodes])
  next => exact nomatch ha

end Expr

namespace UserOperator

/-- The trees of the body and all trees within. -/
def nodes (f : UserOperator) : List Expr := Expr.nodesOf f.body

/-- The operators that the body applies. -/
def applied (f : UserOperator) : List Signature := f.nodes.flatMap Expr.applied

/-- **The scope of an operator is right.**  Every slot has the name that it is used by, and `globals`
are the session variables of the body.  An operator that the body applies is no parameter; nor is it
another slot, unless it is the unary `o`, which is an operator before a point and a name elsewhere. -/
structure WellScoped (f : UserOperator) : Prop where
  locals_nodup : f.locals.Nodup
  parameters_first : f.parameters <+: f.locals
  slots : ∀ name slot, .slotVar name slot ∈ f.nodes → 0 < slot ∧ f.locals[slot - 1]? = some name
  globals_nodup : f.globals.Nodup
  globals_iff : ∀ name, name ∈ f.globals ↔ .sessionVar name ∈ f.nodes
  applied_not_parameter : ∀ need ∈ f.applied, need.name ∉ f.parameters
  applied_not_slot : ∀ need ∈ f.applied, need.name ∈ f.locals → need = ⟨"o", .unary⟩

theorem WellScoped.slot_le {f : UserOperator} (h : f.WellScoped) {name : String} {slot : Nat}
    (hs : .slotVar name slot ∈ f.nodes) : slot ≤ f.locals.length := by
  obtain ⟨hpos, hget⟩ := h.slots name slot hs
  have := (List.getElem?_eq_some_iff.1 hget).1
  omega

end UserOperator

end ArrayCalc
