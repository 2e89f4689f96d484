import Mathlib.Data.List.Forall2
import TestMatrix.Proofs.DistinctKeys
import TestMatrix.Proofs.Odometer

/-!
# Selections by number

The cursor is asked for one selection after the other. Main statement: it answers as many times as the
product of the sizes says and never again, and the answer to a question is read off its number: the
digit for a dimension is what is left of the number after the dimensions behind it, up to the size of
the dimension.
-/

namespace TestMatrix

theorem Fields.keys_foldl_set : ∀ entries fields : Fields, (keys fields).Nodup →
    keys (entries.foldl (fun fields entry => set fields entry.1 entry.2) fields) =
      keys fields ++ ((keys entries).removeAll (keys fields)).eraseDups
  | [], fields, _ => by simp [keys, List.removeAll]
  | (key, value) :: rest, fields, hnodup => by
    rw [List.foldl_cons, keys_foldl_set rest _ (nodup_set hnodup key value), keys_set, keys_cons]
    by_cases hmem : key ∈ keys fields
    · rw [if_pos hmem]
      simp [List.removeAll, hmem]
    · rw [if_neg hmem, List.append_assoc]
      simp [List.removeAll, hmem, List.eraseDups_cons, List.filter_filter, Bool.and_comm, Bool.beq_eq_decide_eq]

/-- A mapping has the keys of its entries, each where it stands first. -/
theorem Fields.keys_ofEntries (entries : Fields) : keys (ofEntries entries) = (keys entries).eraseDups := by
  rw [ofEntries, keys_foldl_set entries [] List.nodup_nil]
  simp [keys, List.removeAll]

namespace Odometer

section
variable (dimensions : List Dimension)

/-- The state of the cursor after this many questions. -/
def cursorAfter : Nat → Option (List Nat)
  | 0 => start dimensions
  | k + 1 => (cursorAfter k).bind (advance (sizes dimensions))

/-- The answer to the question of this number, counted from zero. -/
def answer? (k : Nat) : Option Fields := (cursorAfter dimensions k).map (select dimensions)

/-! ## The cursor -/

theorem start_eq_none (hzero : (sizes dimensions).prod = 0) : start dimensions = none := by
  obtain ⟨size, hmem, hsize⟩ := List.prod_eq_zero_iff_exists_zero_nat.mp hzero
  obtain ⟨dimension, hdimension, rfl⟩ := List.mem_map.mp hmem
  have hempty : dimension.values.isEmpty = true := List.isEmpty_iff.mpr (List.eq_nil_of_length_eq_zero hsize)
  exact if_pos (List.any_eq_true.mpr ⟨dimension, hdimension, hempty⟩)

theorem cursorAfter_eq : ∀ k : Nat, cursorAfter dimensions k =
    if k < (sizes dimensions).prod then some (digits (sizes dimensions) k) else none
  | 0 => by
    rw [cursorAfter]
    by_cases hzero : (sizes dimensions).prod = 0
    · rw [start_eq_none dimensions hzero, hzero]
      rfl
    · have hprod := Nat.pos_of_ne_zero hzero
      rw [if_pos hprod, start_eq dimensions (List.prod_pos_iff_forall_pos_nat.mp hprod)]
  | k + 1 => by
    rw [cursorAfter, cursorAfter_eq k]
    by_cases hk : k < (sizes dimensions).prod
    · have hpos := List.prod_pos_iff_forall_pos_nat.mp (Nat.zero_lt_of_lt hk)
      rw [if_pos hk]
      exact advance_digits hpos hk
    · have hnext : ¬ k + 1 < (sizes dimensions).prod := by omega
      rw [if_neg hk, if_neg hnext]
      rfl

theorem answer?_eq (k : Nat) : answer? dimensions k =
    if k < (sizes dimensions).prod then some (selectionAt dimensions k) else none := by
  rw [answer?, cursorAfter_eq]
  split <;> rfl

/-- Once the cursor has run out it stays so. -/
theorem cursorAfter_add_eq_none {k : Nat} (h : cursorAfter dimensions k = none) (more : Nat) :
    cursorAfter dimensions (k + more) = none := by
  induction more with
  | zero => exact h
  | succ more ih => rw [← Nat.add_assoc, cursorAfter, ih]; rfl

theorem take_cursorAfter : ∀ limit k : Nat, take dimensions limit (cursorAfter dimensions k) =
    (List.range' k limit).filterMap (answer? dimensions)
  | 0, k => by cases cursorAfter dimensions k <;> rfl
  | limit + 1, k => by
    rw [List.range'_succ, List.filterMap_cons, answer?]
    cases hcursor : cursorAfter dimensions k with
    | none =>
      symm
      refine List.filterMap_eq_nil_iff.mpr fun later hlater => ?_
      obtain ⟨more, -, rfl⟩ := List.mem_range'.mp hlater
      rw [answer?, Nat.add_assoc, cursorAfter_add_eq_none dimensions hcursor]
      rfl
    | some digits =>
      have hnext : cursorAfter dimensions (k + 1) = advance (sizes dimensions) digits := by
        rw [cursorAfter, hcursor]
        rfl
      rw [take, ← hnext, take_cursorAfter limit (k + 1)]
      rfl

end

/-! ## The digits -/

/-- The digit for one of the sizes, with the digits before and behind it. -/
theorem digits_append {size : Nat} {after : List Nat} : ∀ {before : List Nat} {k : Nat},
    k < (before ++ size :: after).prod → ∃ first, first.length = before.length ∧
      digits (before ++ size :: after) k = first ++ (k / after.prod % size) :: digits after (k % after.prod)
  | [], k, hk => by
    rw [List.nil_append, List.prod_cons, Nat.mul_comm] at hk
    refine ⟨[], rfl, ?_⟩
    rw [List.nil_append, List.nil_append, digits, Nat.mod_eq_of_lt (Nat.div_lt_of_lt_mul hk)]
  | radix :: before, k, hk => by
    have hprod : (before ++ size :: after).prod = after.prod * (size * before.prod) := by
      rw [List.prod_append, List.prod_cons, ← Nat.mul_assoc, Nat.mul_comm, Nat.mul_comm before.prod]
    rw [List.cons_append, List.prod_cons] at hk
    have hweight : 0 < (before ++ size :: after).prod := Nat.pos_of_mul_pos_left (Nat.zero_lt_of_lt hk)
    obtain ⟨first, hlength, hdigits⟩ := digits_append (Nat.mod_lt k hweight)
    refine ⟨k / (before ++ size :: after).prod :: first, congrArg (· + 1) hlength, ?_⟩
    rw [List.cons_append, digits, hdigits, hprod, Nat.mod_mul_right_div_self,
      Nat.mod_mul_right_mod, Nat.mod_mul_right_mod]
    rfl

theorem lookup_selectionAt {before after : List Dimension} {dimension : Dimension} {k : Nat}
    (hk : k < (sizes (before ++ dimension :: after)).prod)
    (hlast : dimension.key ∉ after.map Dimension.key) :
    k / (sizes after).prod % dimension.values.length < dimension.values.length ∧
      (selectionAt (before ++ dimension :: after) k).lookup dimension.key =
        dimension.values[k / (sizes after).prod % dimension.values.length]? := by
  have hsizes : sizes (before ++ dimension :: after) =
      sizes before ++ dimension.values.length :: sizes after := by
    simp [sizes]
  rw [hsizes] at hk
  have hsize : 0 < dimension.values.length :=
    List.prod_pos_iff_forall_pos_nat.mp (Nat.zero_lt_of_lt hk) _ (by simp)
  have hdigit := Nat.mod_lt (k / (sizes after).prod) hsize
  refine ⟨hdigit, ?_⟩
  obtain ⟨first, hlength, hdigits⟩ := digits_append hk
  rw [sizes, List.length_map] at hlength
  have hbehind : ∀ (field : Dimension × Nat → String × Json) (others : List Nat),
      (∀ entry, (field entry).1 = entry.1.key) → ((after.zip others).map field).filterMap
        (fun entry => if entry.1 = dimension.key then some entry.2 else none) = [] := by
    intro field others hfield
    refine List.filterMap_eq_nil_iff.mpr fun entry hentry => if_neg ?_
    intro hkey
    obtain ⟨⟨other, digit⟩, hmem, rfl⟩ := List.mem_map.mp hentry
    rw [hfield] at hkey
    exact hlast (List.mem_map.mpr ⟨other, (List.of_mem_zip hmem).1, hkey⟩)
  rw [selectionAt, select, hsizes, hdigits, List.zip_append hlength.symm, List.zip_cons_cons, List.map_append,
    List.map_cons, Fields.lookup_ofEntries, List.filterMap_append, List.filterMap_cons, hbehind _ _ fun _ => rfl]
  simp [List.getElem?_eq_getElem hdigit]

theorem keys_selectionAt (dimensions : List Dimension) (k : Nat) :
    Fields.keys (selectionAt dimensions k) = (dimensions.map Dimension.key).eraseDups := by
  have hlength : dimensions.length = (digits (sizes dimensions) k).length := by
    rw [digits_length, sizes, List.length_map]
  rw [selectionAt, select, Fields.keys_ofEntries, Fields.keys, List.map_map]
  refine congrArg _ ?_
  calc (dimensions.zip (digits (sizes dimensions) k)).map (fun entry => entry.1.key)
      = ((dimensions.zip (digits (sizes dimensions) k)).map Prod.fst).map Dimension.key := by rw [List.map_map]; rfl
    _ = dimensions.map Dimension.key := by rw [List.map_fst_zip (Nat.le_of_eq hlength)]

/-- **Selections.** The cursor gives as many selections as the product of the sizes, in the order of
their numbers, and after them none. In no state of the cursor is a digit out of range. A selection
has the keys of all dimensions, each where it stands first, and under a key the value that the digit
of its last dimension points at. -/
theorem selections_by_number (dimensions : List Dimension) :
    (∀ limit, take dimensions limit (start dimensions) = (List.range limit).filterMap (answer? dimensions)) ∧
    (∀ k, (answer? dimensions k).isSome = true ↔ k < (sizes dimensions).prod) ∧
    (∀ k digits, cursorAfter dimensions k = some digits →
      List.Forall₂ (fun digit dimension => digit < dimension.values.length) digits dimensions) ∧
    ∀ k selection, answer? dimensions k = some selection →
      Fields.keys selection = (dimensions.map Dimension.key).eraseDups ∧
      ∀ before dimension after, dimensions = before ++ dimension :: after →
        dimension.key ∉ after.map Dimension.key →
        k / (sizes after).prod % dimension.values.length < dimension.values.length ∧
        selection.lookup dimension.key =
          dimension.values[k / (sizes after).prod % dimension.values.length]? := by
  refine ⟨fun limit => ?_, fun k => ?_, fun k cursor hcursor => ?_, fun k selection hanswer => ?_⟩
  · rw [List.range_eq_range']
    exact take_cursorAfter dimensions limit 0
  · rw [answer?_eq]
    split <;> simp [*]
  · rw [cursorAfter_eq] at hcursor
    split at hcursor
    · next hk =>
      cases hcursor
      exact List.forall₂_map_right_iff.mp (digits_lt hk)
    · cases hcursor
  · rw [answer?_eq] at hanswer
    split at hanswer
    · next hk =>
      cases hanswer
      refine ⟨keys_selectionAt dimensions k, ?_⟩
      rintro before dimension after rfl hlast
      exact lookup_selectionAt hk hlast
    · cases hanswer

-- a key that stands twice keeps its place, and its values are those of the dimension that stands last
example : selections [⟨"a", [.null]⟩, ⟨"b", [.str "x", .str "y"]⟩, ⟨"a", [.bool true, .bool false]⟩] =
    [[("a", .bool true), ("b", .str "x")], [("a", .bool false), ("b", .str "x")],
      [("a", .bool true), ("b", .str "y")], [("a", .bool false), ("b", .str "y")]] := rfl

end Odometer

end TestMatrix
