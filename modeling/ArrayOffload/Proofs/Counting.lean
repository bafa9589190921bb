import ArrayOffload.Proofs.Shapes
import Mathlib.Algebra.BigOperators.Group.List.Lemmas
import Mathlib.Algebra.BigOperators.Ring.List
import Mathlib.Algebra.Ring.Nat
import Mathlib.Data.List.TakeWhile

/-!
# Counting elements

The number of elements is a product taken from left to right, and every product on the way has to
be a machine word. Extents other than zero never make a product smaller and a zero ends it, so the
largest product on the way is that of the extents before the first zero.

* `Shape.product?_of_pos`: the checked product, from the two products that decide it;
* `Shape.count?_exact`: what is counted and what is refused, and when the order of the extents
  matters.
-/

namespace ArrayOffload.Shape

/-! ## The largest product -/

/-- The extents before the first zero. -/
def leading (shape : Shape) : Shape := shape.takeWhile (· ≠ 0)

theorem prod_leading_pos (shape : Shape) : 0 < shape.leading.prod := by
  refine Nat.pos_of_ne_zero (List.prod_ne_zero fun hzero => ?_)
  simpa using List.mem_takeWhile_imp hzero

theorem leading_eq_self {shape : Shape} (h : 0 ∉ shape) : shape.leading = shape := by
  refine List.takeWhile_eq_self_iff.mpr fun extent hextent => ?_
  simpa using ne_of_mem_of_not_mem hextent h

theorem product?_zero (shape : Shape) : product? 0 shape = some 0 := by
  induction shape with
  | nil => rfl
  | cons extent rest ih =>
    unfold product?
    rw [Nat.zero_mul, if_pos (by decide), ih]

/-- The product is refused exactly if the extents before the first zero lead beyond a word. -/
theorem product?_of_pos {total : Nat} (shape : Shape) (hpos : 0 < total)
    (hword : total < wordLimit) :
    product? total shape =
      if total * shape.leading.prod < wordLimit then some (total * shape.prod) else none := by
  induction shape generalizing total with
  | nil => simp [product?, leading, hword]
  | cons extent rest ih =>
    unfold product?
    by_cases hzero : extent = 0
    · subst hzero
      have hnone : leading (0 :: rest) = [] := by simp [leading]
      rw [Nat.mul_zero, if_pos (by decide), product?_zero, hnone, List.prod_nil, Nat.mul_one,
        if_pos hword, List.prod_cons, Nat.zero_mul, Nat.mul_zero]
    · have hsome : leading (extent :: rest) = extent :: leading rest := by simp [leading, hzero]
      rw [hsome, List.prod_cons, List.prod_cons, ← Nat.mul_assoc, ← Nat.mul_assoc]
      split
      · next hfits => exact ih (Nat.mul_pos hpos (Nat.pos_of_ne_zero hzero)) hfits
      · next hlarge =>
        -- the rest of the leading extents cannot bring the product back below the limit
        have hgrows := Nat.le_mul_of_pos_right (total * extent) (prod_leading_pos rest)
        rw [if_neg (by omega)]

/-- A shape is counted if its size is addressable and no product on the way leaves the words. -/
theorem count?_eq_ite (shape : Shape) :
    shape.count? =
      if 8 * shape.prod ≤ 2 ^ 63 - 1 ∧ shape.leading.prod < 2 ^ 64 then some shape.prod
      else none := by
  have hword : wordLimit = 2 ^ 64 := rfl
  have hbyte : byteLimit = 2 ^ 63 - 1 := rfl
  rw [count?, product?_of_pos shape Nat.one_pos (by decide), Nat.one_mul, Nat.one_mul, hword]
  by_cases hleading : shape.leading.prod < 2 ^ 64
  · rw [if_pos hleading, Option.filter_some, hbyte]
    simp only [hleading, and_true, decide_eq_true_eq, Nat.mul_comm 8]
  · rw [if_neg hleading, Option.filter_none, if_neg fun h => hleading h.2]

/-! ## The order of the extents -/

/-- Without a zero there is one product on the way that counts, the last. -/
theorem count?_of_zero_notMem {shape : Shape} (h : 0 ∉ shape) :
    shape.count? = if 8 * shape.prod ≤ 2 ^ 63 - 1 then some shape.prod else none := by
  rw [count?_eq_ite, leading_eq_self h]
  refine if_congr ?_ rfl rfl
  omega

/-- A shape with a zero has no elements, if they can be counted. -/
theorem count?_of_zero_mem {shape : Shape} (h : 0 ∈ shape) :
    shape.count? = if shape.leading.prod < 2 ^ 64 then some 0 else none := by
  rw [count?_eq_ite, List.prod_eq_zero h]
  refine if_congr ?_ rfl rfl
  omega

/-- The extents before the first zero are among those other than zero. -/
theorem prod_leading_le (shape : Shape) :
    shape.leading.prod ≤ (shape.filter (· ≠ 0)).prod := by
  have hpos : (shape.filter (· ≠ 0)).prod ≠ 0 := List.prod_ne_zero (by simp)
  have hsub : shape.leading.Sublist (shape.filter (· ≠ 0)) := by
    have hself : shape.leading.filter (· ≠ 0) = shape.leading :=
      List.filter_eq_self.mpr fun extent hextent => by
        simpa using List.mem_takeWhile_imp hextent
    exact hself ▸ (List.takeWhile_sublist _).filter _
  exact Nat.le_of_dvd (Nat.pos_of_ne_zero hpos) hsub.prod_dvd_prod

/-- With all zeros at the end, the extents other than zero are the leading ones. -/
theorem leading_zeros_last (shape : Shape) :
    leading (shape.filter (· ≠ 0) ++ shape.filter (fun extent => !decide (extent ≠ 0))) =
      shape.filter (· ≠ 0) := by
  have hnone : (shape.filter fun extent => !decide (extent ≠ 0)).takeWhile (· ≠ 0) = [] := by
    refine List.takeWhile_eq_nil_iff.mpr fun hlength => ?_
    have hmem := List.get_mem (shape.filter fun extent => !decide (extent ≠ 0)) ⟨0, hlength⟩
    simpa using (List.mem_filter.mp hmem).2
  rw [leading, List.takeWhile_append_of_pos (by simp), hnone, List.append_nil]

/-- With a zero in front, nothing else matters. -/
theorem count?_zero_cons (shape : Shape) : count? (0 :: shape) = some 0 := by
  rw [count?_of_zero_mem (by simp)]
  simp [leading]

/-- The order of the extents matters exactly if there is a zero among extents that lead beyond a
word. -/
theorem count?_perm_iff (shape : Shape) :
    (∀ other : Shape, shape.Perm other → other.count? = shape.count?) ↔
      (0 ∈ shape → (shape.filter (· ≠ 0)).prod < 2 ^ 64) := by
  constructor
  · intro same hzero
    have hlast := same _ (List.filter_append_perm (· ≠ 0) shape).symm
    have hfirst := same _ (List.perm_cons_erase hzero)
    rw [← hfirst, count?_zero_cons, count?_eq_ite, leading_zeros_last] at hlast
    split at hlast
    · next hfits => exact hfits.2
    · cases hlast
  · intro fits other hperm
    by_cases hzero : 0 ∈ shape
    · have hother := hperm.mem_iff.mp hzero
      have hprod := (hperm.filter (· ≠ 0)).prod_eq
      rw [count?_of_zero_mem hzero, count?_of_zero_mem hother,
        if_pos (Nat.lt_of_le_of_lt (prod_leading_le shape) (fits hzero)),
        if_pos (Nat.lt_of_le_of_lt (prod_leading_le other) (hprod ▸ fits hzero))]
    · have hother : 0 ∉ other := fun h => hzero (hperm.mem_iff.mpr h)
      rw [count?_of_zero_notMem hzero, count?_of_zero_notMem hother, hperm.prod_eq]

/-- The count is the product of the extents, if that many elements can be addressed and the extents
before the first zero lead to no product beyond a word. Any other shape is refused. So the answer
depends on the order of the extents only if there is a zero that can stand behind such a product. -/
theorem count?_exact (dims : Shape) :
    (dims.count? =
      if 8 * dims.prod ≤ 2 ^ 63 - 1 ∧ (dims.takeWhile (· ≠ 0)).prod < 2 ^ 64 then some dims.prod
      else none) ∧
    ((∀ other : Shape, dims.Perm other → other.count? = dims.count?) ↔
      (0 ∈ dims → (dims.filter (· ≠ 0)).prod < 2 ^ 64)) :=
  ⟨count?_eq_ite dims, count?_perm_iff dims⟩

/-- No elements, and yet refused where the zero comes last: the product of the other two extents is
no word. -/
theorem count?_late_zero :
    ((∀ extent ∈ [2 ^ 32, 2 ^ 32, 0], extent < 2 ^ 64) ∧ [2 ^ 32, 2 ^ 32, 0].prod = 0 ∧
      count? [2 ^ 32, 2 ^ 32, 0] = none) ∧
    [2 ^ 32, 2 ^ 32, 0].Perm [0, 2 ^ 32, 2 ^ 32] ∧ count? [0, 2 ^ 32, 2 ^ 32] = some 0 := by
  decide

end ArrayOffload.Shape
