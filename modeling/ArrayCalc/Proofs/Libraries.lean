import ArrayCalc.Machine.Standard
import ArrayCalc.Proofs.DoubleOrder
import Mathlib.Algebra.BigOperators.Group.List.Basic
import Mathlib.Algebra.Ring.Int.Defs

/-!
# What is known of array libraries

A library goes through a row in an order of its own, so what it makes of a row is told without any
order.  A sum and a product are those of whole numbers, counted modulo 2^64.  The largest and the
smallest integer of a row are elements that no other one is beyond.  So is the extreme of a row of
floats, where minus zero is smaller than zero; but a float that is undefined spreads, and a library
may count all floats too small for a full mantissa as zeros.

This is what the theory of the bulk routes rests on, and the standard library is one of which it
holds.
-/

namespace ArrayCalc

namespace Double

/-! ## § Tiny doubles -/

theorem sizeBits_copySign_zero (x : Float) : sizeBits (copySign 0 x) = 0 := by
  unfold copySign
  cases isNegative x <;> decide +kernel

theorem isNegative_copySign_zero (x : Float) : isNegative (copySign 0 x) = isNegative x := by
  unfold copySign
  cases isNegative x <;> decide +kernel

theorem sizeBits_flushed (x : Float) :
    sizeBits (flushed x) = if sizeBits x < leadingBit then 0 else sizeBits x := by
  rw [flushed_eq]
  split
  · exact sizeBits_copySign_zero x
  · rfl

theorem isNegative_flushed (x : Float) : isNegative (flushed x) = isNegative x := by
  rw [flushed_eq]
  split
  · exact isNegative_copySign_zero x
  · rfl

theorem isNaN_flushed (x : Float) : (flushed x).isNaN = x.isNaN := by
  rw [Bool.eq_iff_iff, isNaN_iff, isNaN_iff, sizeBits_flushed]
  unfold leadingBit
  split <;> omega

theorem place_flushed (x : Float) : place (flushed x)
    = if isNegative x then -((if sizeBits x < leadingBit then 0 else sizeBits x : Nat) : Int) - 1
      else (if sizeBits x < leadingBit then 0 else sizeBits x : Nat) := by
  rw [place_eq, standing, isNegative_flushed, sizeBits_flushed]
  split <;> rfl

end Double

namespace Bulk

/-! ## § Folds of a row -/

section

variable {α : Type} {f : α → α → α} {P : List α → α → Prop}

theorem running_eq_map (f : α → α → α) (total : α) (as : List α) :
    running f total as
      = (List.range (as.length + 1)).map fun i => (as.take i).foldl f total := by
  induction as generalizing total with
  | nil => rfl
  | cons a as ih =>
    rw [List.length_cons, List.range_succ_eq_map, running, ih]
    simp [List.map_map, Function.comp_def]

/-- The row of the folds of all beginnings. -/
theorem accumulate_eq_map [Inhabited α] (f : α → α → α) (as : List α) :
    accumulate f as = (List.range as.length).map fun i => total f (as.take (i + 1)) := by
  cases as with
  | nil => rfl
  | cons a as => exact running_eq_map f a as

theorem length_accumulate [Inhabited α] (f : α → α → α) (as : List α) :
    (accumulate f as).length = as.length := by
  rw [accumulate_eq_map, List.length_map, List.length_range]

/-- What is true of single elements, and of a row whose two parts it is true of, is true of the fold
of every row. -/
theorem total_of_append [Inhabited α] (one : ∀ a, P [a] a)
    (append : ∀ as bs a b, P as a → P bs b → P (as ++ bs) (f a b)) {as : List α} (h : as ≠ []) :
    P as (total f as) := by
  obtain ⟨first, rest, rfl⟩ := List.exists_cons_of_ne_nil h
  have further (rest seen : List α) (b : α) (hb : P seen b) :
      P (seen ++ rest) (rest.foldl f b) := by
    induction rest generalizing seen b with
    | nil => rwa [List.append_nil]
    | cons a rest ih =>
      rw [List.append_cons]
      exact ih (seen ++ [a]) (f b a) (append seen [a] b a hb (one a))
  exact further rest [first] first (one first)

theorem accumulate_of_append [Inhabited α] (one : ∀ a, P [a] a)
    (append : ∀ as bs a b, P as a → P bs b → P (as ++ bs) (f a b)) {as : List α} {i : Nat} {b : α}
    (h : (accumulate f as)[i]? = some b) : P (as.take (i + 1)) b := by
  rw [accumulate_eq_map, List.getElem?_map, Option.map_eq_some_iff] at h
  obtain ⟨j, here, rfl⟩ := h
  obtain ⟨inside, rfl⟩ := List.getElem?_eq_some_iff.1 here
  rw [List.length_range] at inside
  rw [List.getElem_range]
  refine total_of_append one append fun nil => ?_
  rw [List.take_eq_nil_iff, ← List.length_eq_zero_iff] at nil
  omega

end

/-! ## § Totals of integers -/

/-- What the total of a row of integers is, in whatever order it is found. -/
def Operation.IsTotal : Operation → List Int64 → Int64 → Prop
  | .sum, ns, total => total = Int64.ofInt (ns.map Int64.toInt).sum
  | .product, ns, total => total = Int64.ofInt (ns.map Int64.toInt).prod
  | .extreme .largest, ns, total => total ∈ ns ∧ ∀ n ∈ ns, n ≤ total
  | .extreme .smallest, ns, total => total ∈ ns ∧ ∀ n ∈ ns, total ≤ n

/-- A library that makes of integers what there is to be made of them. -/
structure Library.ExactInts (library : Library) : Prop where
  reduce : ∀ (operation : Operation) ns, ns ≠ [] →
    operation.IsTotal ns (library.reduceInts operation ns)
  scan_length : ∀ operation ns, (library.scanInts operation ns).length = ns.length
  /-- Each element of a scan is the total of a beginning. -/
  scan : ∀ (operation : Operation) ns i total, (library.scanInts operation ns)[i]? = some total →
    operation.IsTotal (ns.take (i + 1)) total
  dot : ∀ as bs, as.length = bs.length →
    library.dot as bs = Int64.ofInt ((as.zip bs).map fun (a, b) => a.toInt * b.toInt).sum

variable {operation : Operation} {ns : List Int64}

theorem Operation.isTotal_singleton (operation : Operation) (n : Int64) :
    operation.IsTotal [n] n := by
  match operation with
  | .sum => simp [IsTotal]
  | .product => simp [IsTotal]
  | .extreme .largest => simp [IsTotal]
  | .extreme .smallest => simp [IsTotal]

/-- The total of two rows is what the operation makes of their totals. -/
theorem Operation.IsTotal.append {as bs : List Int64} {a b : Int64} (ha : operation.IsTotal as a)
    (hb : operation.IsTotal bs b) : operation.IsTotal (as ++ bs) (operation.onInts a b) := by
  match operation with
  | .sum =>
    rw [IsTotal] at *
    rw [onInts, ha, hb, List.map_append, List.sum_append, Int64.ofInt_add]
  | .product =>
    rw [IsTotal] at *
    rw [onInts, ha, hb, List.map_append, List.prod_append, Int64.ofInt_mul]
  | .extreme .largest =>
    simp only [IsTotal, onInts, List.mem_append, ge_iff_le, Int64.le_iff_toInt_le] at *
    grind
  | .extreme .smallest =>
    simp only [IsTotal, onInts, List.mem_append, Int64.le_iff_toInt_le] at *
    grind

/-- A row has one total. -/
theorem Operation.IsTotal.unique {a b : Int64} (ha : operation.IsTotal ns a)
    (hb : operation.IsTotal ns b) : a = b := by
  match operation with
  | .sum => exact Eq.trans ha hb.symm
  | .product => exact Eq.trans ha hb.symm
  | .extreme .largest => exact Int64.le_antisymm (hb.2 a ha.1) (ha.2 b hb.1)
  | .extreme .smallest => exact Int64.le_antisymm (ha.2 b hb.1) (hb.2 a ha.1)

/-- The fold from the right is the total. -/
theorem Operation.isTotal_foldr (operation : Operation) (ns : List Int64) (last : Int64) :
    operation.IsTotal (ns ++ [last]) (ns.foldr operation.onInts last) := by
  induction ns with
  | nil => exact operation.isTotal_singleton last
  | cons n ns ih => exact (operation.isTotal_singleton n).append ih

theorem Library.standard_exactInts : Library.standard.ExactInts where
  reduce operation ns some_ns :=
    total_of_append operation.isTotal_singleton (fun _ _ _ _ ha hb => ha.append hb) some_ns
  scan_length operation ns := length_accumulate operation.onInts ns
  scan operation ns i total at_i :=
    accumulate_of_append operation.isTotal_singleton (fun _ _ _ _ ha hb => ha.append hb) at_i
  dot as bs _ := by
    have further (pairs : List (Int64 × Int64)) (start : Int64) :
        pairs.foldl (fun sum (a, b) => sum + a * b) start
          = start + Int64.ofInt (pairs.map fun (a, b) => a.toInt * b.toInt).sum := by
      induction pairs generalizing start with
      | nil => simp
      | cons pair pairs ih =>
        rw [List.foldl_cons, ih, List.map_cons, List.sum_cons, Int64.ofInt_add, Int64.ofInt_mul,
          Int64.ofInt_toInt, Int64.ofInt_toInt, Int64.add_assoc]
    exact (further (as.zip bs) 0).trans (Int64.zero_add _)

/-- All libraries that are exact make the same of a row. -/
theorem Library.ExactInts.scanInts_eq {library : Library} (h : library.ExactInts)
    (operation : Operation) (ns : List Int64) :
    library.scanInts operation ns = accumulate operation.onInts ns := by
  have lengths : (library.scanInts operation ns).length
      = (accumulate operation.onInts ns).length := by
    rw [h.scan_length, length_accumulate]
  refine List.ext_getElem lengths fun i here there => ?_
  exact (h.scan operation ns i _ (List.getElem?_eq_getElem here)).unique
    (standard_exactInts.scan operation ns i _ (List.getElem?_eq_getElem there))

/-- A sum of products is the total of the products. -/
theorem Library.ExactInts.isTotal_dot {library : Library} (h : library.ExactInts)
    {as bs : List Int64} (lengths : as.length = bs.length) :
    Operation.sum.IsTotal ((as.zip bs).map fun (a, b) => a * b) (library.dot as bs) := by
  have words (pairs : List (Int64 × Int64)) :
      Int64.ofInt (pairs.map fun (a, b) => a.toInt * b.toInt).sum
        = Int64.ofInt ((pairs.map fun (a, b) => a * b).map Int64.toInt).sum := by
    induction pairs with
    | nil => rfl
    | cons pair pairs ih =>
      simp only [List.map_cons, List.sum_cons, Int64.ofInt_add, Int64.ofInt_mul,
        Int64.ofInt_toInt, ih]
  exact (h.dot as bs lengths).trans (words _)

/-! ## § Extremes of floats -/

open Double

/-- What the extreme of a row of floats is, in whatever order it is found. -/
inductive IsExtreme (e : Extreme) (xs : List Float) (total : Float) : Prop
  | undefined (among : ∃ x ∈ xs, x.isNaN = true) (spoilt : total.isNaN = true)
  | defined (all : ∀ x ∈ xs, x.isNaN = false) (member : total ∈ xs)
      (extreme : ∀ x ∈ xs, e.sign * place x ≤ e.sign * place total)

/-- A library that finds the extreme of every row of floats.  It takes a float for what it is, or all
those too small for a full mantissa for zeros. -/
structure Library.ExtremeFloats (library : Library) (taken : Float → Float) : Prop where
  counted : taken = id ∨ taken = flushed
  reduce : ∀ e xs, xs ≠ [] → IsExtreme e (xs.map taken) (library.reduceFloats e xs)
  scan_length : ∀ e xs, (library.scanFloats e xs).length = xs.length
  /-- Each element of a scan is the extreme of a beginning. -/
  scan : ∀ e xs i total, (library.scanFloats e xs)[i]? = some total →
    IsExtreme e ((xs.take (i + 1)).map taken) total

variable {e : Extreme} {xs ys : List Float} {x y : Float}

theorem isExtreme_singleton (e : Extreme) (x : Float) : IsExtreme e [x] x := by
  cases undefined : x.isNaN with
  | true => exact .undefined ⟨x, List.mem_singleton_self x, undefined⟩ undefined
  | false =>
    exact .defined (List.forall_mem_singleton.2 undefined) (List.mem_singleton_self x)
      (List.forall_mem_singleton.2 (Int.le_refl _))

theorem IsExtreme.spoilt (h : IsExtreme e xs x) : x.isNaN = true ↔ ∃ y ∈ xs, y.isNaN = true := by
  cases h with
  | undefined among spoilt => exact iff_of_true spoilt among
  | defined all member _ =>
    refine iff_of_false (Bool.eq_false_iff.1 (all x member)) ?_
    rintro ⟨y, among, undefined⟩
    exact Bool.eq_false_iff.1 (all y among) undefined

theorem IsExtreme.ne_nil (h : IsExtreme e xs x) : xs ≠ [] := by
  rintro rfl
  cases h with
  | undefined among _ => simp at among
  | defined _ member _ => simp at member

theorem Extreme.sign_eq (e : Extreme) : e.sign = 1 ∨ e.sign = -1 := by
  cases e with
  | largest => exact .inl rfl
  | smallest => exact .inr rfl

theorem onFloats_defined (hx : x.isNaN = false) (hy : y.isNaN = false) :
    e.onFloats x y = if e.sign * place x < e.sign * place y then y else x := by
  rw [Extreme.onFloats, hx, hy]
  rfl

/-- The extreme of two rows is the extreme of theirs. -/
theorem IsExtreme.append (hx : IsExtreme e xs x) (hy : IsExtreme e ys y) :
    IsExtreme e (xs ++ ys) (e.onFloats x y) := by
  cases hx with
  | undefined among spoilt =>
    obtain ⟨z, member, undefined⟩ := among
    refine .undefined ⟨z, List.mem_append_left ys member, undefined⟩ ?_
    rwa [Extreme.onFloats, if_pos spoilt]
  | defined all member extreme =>
    cases hy with
    | undefined among spoilt =>
      obtain ⟨z, inside, undefined⟩ := among
      refine .undefined ⟨z, List.mem_append_right xs inside, undefined⟩ ?_
      rwa [Extreme.onFloats, if_neg (Bool.eq_false_iff.1 (all x member)), if_pos spoilt]
    | defined all' member' extreme' =>
      refine .defined (List.forall_mem_append.2 ⟨all, all'⟩) ?_ ?_
      · rw [onFloats_defined (all x member) (all' y member')]
        split
        · exact List.mem_append_right xs member'
        · exact List.mem_append_left ys member
      · rw [onFloats_defined (all x member) (all' y member')]
        intro z inside
        rcases List.mem_append.1 inside with left | right
        · have := extreme z left
          split <;> omega
        · have := extreme' z right
          split <;> omega

/-- A row has one extreme. -/
theorem IsExtreme.unique (hx : IsExtreme e xs x) (hy : IsExtreme e xs y) : x = y := by
  cases hx with
  | undefined among spoilt => exact eq_of_isNaN spoilt (hy.spoilt.2 among)
  | defined all member extreme =>
    cases hy with
    | undefined among _ =>
      obtain ⟨z, inside, undefined⟩ := among
      exact absurd undefined (Bool.eq_false_iff.1 (all z inside))
    | defined _ member' extreme' =>
      have least := extreme y member'
      have most := extreme' x member
      refine eq_of_place ?_
      cases e <;> simp only [Extreme.sign] at least most <;> omega

theorem Library.standard_extremeFloats : Library.standard.ExtremeFloats flushed where
  counted := .inr rfl
  reduce e xs some_xs :=
    total_of_append (isExtreme_singleton e) (fun _ _ _ _ hx hy => hx.append hy)
      fun nil => some_xs (List.map_eq_nil_iff.1 nil)
  scan_length e xs := (length_accumulate e.onFloats _).trans (List.length_map _)
  scan e xs i total at_i := by
    rw [List.map_take]
    exact accumulate_of_append (isExtreme_singleton e) (fun _ _ _ _ hx hy => hx.append hy) at_i

end Bulk

end ArrayCalc
