import Mathlib.Algebra.Ring.Nat
import Mathlib.Data.List.Forall2
import TestMatrix.Matrix.Odometer

/-!
# The odometer counts

The cursor of a product runs through the digits of 0, 1, 2, … in the mixed radix of the sizes, the
last digit the least significant one. It runs out exactly after the product of the sizes, so the
selections can be listed by number.
-/

namespace TestMatrix

namespace Odometer

/-- The digits of a number. The weight of a digit is the product of the sizes after it. -/
def digits : List Nat → Nat → List Nat
  | [], _ => []
  | _ :: sizes, k => k / sizes.prod :: digits sizes (k % sizes.prod)

theorem digits_length : ∀ (sizes : List Nat) (k : Nat), (digits sizes k).length = sizes.length
  | [], _ => rfl
  | _ :: sizes, k => by rw [digits, List.length_cons, digits_length sizes, List.length_cons]

theorem digits_zero : ∀ sizes : List Nat, digits sizes 0 = List.replicate sizes.length 0
  | [] => rfl
  | _ :: sizes => by
    rw [digits, Nat.zero_div, Nat.zero_mod, digits_zero sizes, List.length_cons, List.replicate_succ]

theorem digits_cons {sizes : List Nat} (size digit : Nat) {rest : Nat} (h : rest < sizes.prod) :
    digits (size :: sizes) (digit * sizes.prod + rest) = digit :: digits sizes rest := by
  have hweight : 0 < sizes.prod := by omega
  rw [digits, Nat.mul_comm, Nat.mul_add_div hweight, Nat.mul_add_mod, Nat.div_eq_of_lt h,
    Nat.mod_eq_of_lt h, Nat.add_zero]

theorem digits_lt : ∀ {sizes : List Nat} {k : Nat}, k < sizes.prod →
    List.Forall₂ (· < ·) (digits sizes k) sizes
  | [], _, _ => .nil
  | size :: sizes, k, h => by
    rw [List.prod_cons, Nat.mul_comm] at h
    have hweight : 0 < sizes.prod := Nat.pos_of_mul_pos_right (Nat.zero_lt_of_lt h)
    exact .cons (Nat.div_lt_of_lt_mul h) (digits_lt (Nat.mod_lt k hweight))

/-- A step of the cursor is a step of the number, up to the last number there is. -/
theorem advance_digits : ∀ {sizes : List Nat} {k : Nat}, (∀ size ∈ sizes, 0 < size) → k < sizes.prod →
    advance sizes (digits sizes k) = if k + 1 < sizes.prod then some (digits sizes (k + 1)) else none
  | [], k, _, _ => by
    have : ¬ k + 1 < 1 := by omega
    rw [List.prod_nil, if_neg this]
    rfl
  | size :: sizes, k, hpos, hk => by
    obtain ⟨-, hsizes⟩ := List.forall_mem_cons.mp hpos
    have hweight := List.prod_pos_iff_forall_pos_nat.mpr hsizes
    obtain ⟨digit, rest, hrest, rfl⟩ : ∃ digit rest, rest < sizes.prod ∧ k = digit * sizes.prod + rest :=
      ⟨k / sizes.prod, k % sizes.prod, Nat.mod_lt k hweight, (Nat.div_add_mod' k sizes.prod).symm⟩
    rw [List.prod_cons] at hk ⊢
    have hdigit : digit < size := by
      refine Nat.lt_of_mul_lt_mul_right (a := sizes.prod) ?_
      omega
    have hroom : (digit + 1) * sizes.prod ≤ size * sizes.prod := Nat.mul_le_mul_right _ hdigit
    rw [Nat.succ_mul] at hroom
    rw [digits_cons size digit hrest, advance, advance_digits hsizes hrest]
    by_cases hlast : rest + 1 < sizes.prod
    · -- the digits after this one can still go on
      have hlt : digit * sizes.prod + rest + 1 < size * sizes.prod := by omega
      rw [if_pos hlast, if_pos hlt, Nat.add_assoc, digits_cons size digit hlast]
    · -- they start again, and this one goes on
      have hnext : digit * sizes.prod + rest + 1 = (digit + 1) * sizes.prod + 0 := by
        rw [Nat.succ_mul]; omega
      have hiff : (digit + 1) * sizes.prod + 0 < size * sizes.prod ↔ digit + 1 < size := by
        rw [Nat.add_zero, Nat.mul_lt_mul_right hweight]
      rw [if_neg hlast, hnext, digits_cons size (digit + 1) hweight, digits_zero, digits_length]
      simp only [hiff]

section
variable (dimensions : List Dimension)

theorem selectionCount_eq : selectionCount dimensions = (sizes dimensions).prod := rfl

def selectionAt (k : Nat) : Fields := select dimensions (digits (sizes dimensions) k)

theorem take_digits (hpos : ∀ size ∈ sizes dimensions, 0 < size) : ∀ (limit k : Nat),
    k + limit = selectionCount dimensions →
      take dimensions limit (some (digits (sizes dimensions) k)) =
        (List.range' k limit).map (selectionAt dimensions)
  | 0, _, _ => rfl
  | limit + 1, k, hcount => by
    rw [selectionCount_eq] at hcount
    have hk : k < (sizes dimensions).prod := by omega
    rw [take, advance_digits hpos hk, List.range'_succ, List.map_cons, selectionAt]
    refine congrArg _ ?_
    by_cases hmore : k + 1 < (sizes dimensions).prod
    · rw [if_pos hmore]
      exact take_digits hpos limit (k + 1) (by rw [selectionCount_eq]; omega)
    · have hlimit : limit = 0 := by omega
      subst hlimit
      rfl

theorem start_eq (hpos : ∀ size ∈ sizes dimensions, 0 < size) :
    start dimensions = some (digits (sizes dimensions) 0) := by
  have hany : ¬ (dimensions.any fun dimension => dimension.values.isEmpty) = true := by
    rw [List.any_eq_true]
    rintro ⟨dimension, hmem, hempty⟩
    have := hpos _ (List.mem_map.mpr ⟨dimension, hmem, rfl⟩)
    rw [List.isEmpty_iff.mp hempty] at this
    exact Nat.lt_irrefl 0 this
  rw [start, if_neg hany, digits_zero, sizes, List.length_map]

/-- The selections of a product in the order of their numbers, of which there are as many as the
product of the sizes. -/
theorem selections_eq :
    selections dimensions = (List.range (selectionCount dimensions)).map (selectionAt dimensions) := by
  unfold selections
  by_cases hpos : ∀ size ∈ sizes dimensions, 0 < size
  · rw [start_eq dimensions hpos, take_digits dimensions hpos _ 0 (Nat.zero_add _), List.range_eq_range']
  · have hzero : selectionCount dimensions = 0 := by
      rw [← List.prod_pos_iff_forall_pos_nat] at hpos
      exact Nat.eq_zero_of_not_pos hpos
    rw [hzero]
    rfl

end

end Odometer

end TestMatrix
