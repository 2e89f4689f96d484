import Mathlib.Data.List.Nodup
import TestMatrix.Proofs.DistinctKeys
import TestMatrix.Render.Leaf

/-!
# What a context holds under a key

Fields of different ancestors can come to the same key: `_x` of the closest ancestor and `x` of the next
both become `__x`. The ancestors are laid over each other from the closest to the outermost, so among
those that have a field for a key the outermost wins. A field that does not begin with an underscore has
no rival further out.
-/

namespace TestMatrix

namespace Context

theorem setAll_append (context : Fields) (first second : List (String × Json)) :
    setAll context (first ++ second) = setAll (setAll context first) second := List.foldl_append

/-- A layer with distinct keys shows its own values and leaves the rest to what lies below. -/
theorem lookup_setAll : ∀ {layer : Fields}, (Fields.keys layer).Nodup → ∀ (context : Fields) (key : String),
    (setAll context layer).lookup key = (layer.lookup key).or (context.lookup key)
  | [], _, _, _ => rfl
  | (name, value) :: rest, hnodup, context, key => by
    rw [Fields.keys_cons, List.nodup_cons] at hnodup
    have hrest := lookup_setAll hnodup.2 (Fields.set context name value) key
    rw [setAll, List.foldl_cons, ← setAll, hrest, Fields.lookup_set, lookup_cons_ite]
    by_cases hkey : key = name
    · -- nothing in the rest of the layer has this key
      have hnone : rest.lookup name = none := by
        cases hlookup : rest.lookup name with
        | none => rfl
        | some other => exact absurd (Fields.mem_keys_of_mem (mem_of_lookup hlookup)) hnodup.1
      rw [if_pos hkey, if_pos hkey, hkey, hnone]
      rfl
    · rw [if_neg hkey, if_neg hkey]

/-! ## Underscores -/

def underscores (count : Nat) : String := String.ofList (List.replicate count '_')

theorem underscores_succ (count : Nat) : underscores (count + 1) = underscores count ++ "_" := by
  rw [underscores, List.replicate_succ', String.ofList_append]
  rfl

theorem underscores_append_inj {count : Nat} {first second : String}
    (h : underscores count ++ first = underscores count ++ second) : first = second := by
  have hlist := congrArg String.toList h
  rw [String.toList_append, String.toList_append] at hlist
  exact String.toList_inj.mp (List.append_cancel_left hlist)

/-- More underscores leave less of the key, and what they leave out begins with one. -/
theorem head_of_more_underscores {fewer more : Nat} (hlt : fewer < more) {field other : String}
    (h : underscores fewer ++ field = underscores more ++ other) : field.toList.head? = some '_' := by
  obtain ⟨further, rfl⟩ := Nat.exists_eq_add_of_lt hlt
  have hlist := congrArg String.toList h
  simp only [underscores, String.toList_append, String.toList_ofList, Nat.add_assoc, List.replicate_add,
    List.append_assoc, List.append_cancel_left_eq] at hlist
  rw [hlist, ← List.append_assoc, ← List.replicate_add, List.replicate_succ]
  rfl

/-! ## One ancestor -/

section
variable {ancestor : Fields} (hnodup : (Fields.keys ancestor).Nodup) (count : Nat)
include hnodup

theorem nodup_prefixed :
    (Fields.keys (ancestor.map fun (name, value) => (underscores count ++ name, value))).Nodup := by
  have hkeys := List.Nodup.map (f := (underscores count ++ ·)) (fun _ _ => underscores_append_inj) hnodup
  rw [Fields.keys, List.map_map] at hkeys ⊢
  exact hkeys

theorem lookup_prefixed {key : String} {value : Json} :
    (ancestor.map fun (name, value) => (underscores count ++ name, value)).lookup key = some value ↔
      ∃ field, key = underscores count ++ field ∧ ancestor.lookup field = some value := by
  rw [Fields.lookup_eq_some_iff (nodup_prefixed hnodup count), List.mem_map]
  constructor
  · intro h
    obtain ⟨⟨field, value⟩, hmem, he⟩ := h
    cases he
    exact ⟨field, rfl, Fields.lookup_of_mem hnodup hmem⟩
  · intro h
    obtain ⟨field, rfl, hfield⟩ := h
    exact ⟨(field, value), mem_of_lookup hfield, rfl⟩

end

/-! ## All ancestors -/

/-- The ancestor of this level has a field for the key. The ancestors stand closest first, and the fields
of the first have this many underscores. -/
def IsNamed (count : Nat) (near : List Fields) (level : Nat) (key : String) (value : Json) : Prop :=
  ∃ ancestor field, near[level]? = some ancestor ∧ key = underscores (count + level) ++ field ∧
    ancestor.lookup field = some value

theorem isNamed_zero {count : Nat} {ancestor : Fields} {rest : List Fields} {key : String} {value : Json} :
    IsNamed count (ancestor :: rest) 0 key value ↔
      ∃ field, key = underscores count ++ field ∧ ancestor.lookup field = some value := by
  simp [IsNamed]

theorem isNamed_succ {count level : Nat} {ancestor : Fields} {rest : List Fields} {key : String} {value : Json} :
    IsNamed count (ancestor :: rest) (level + 1) key value ↔ IsNamed (count + 1) rest level key value := by
  simp [IsNamed, Nat.add_assoc, Nat.add_comm 1]

theorem setAll_ancestorEntries (context : Fields) (count : Nat) (ancestor : Fields) (rest : List Fields) :
    setAll context (ancestorEntries (underscores count) (ancestor :: rest)) =
      setAll (setAll context (ancestor.map fun (name, value) => (underscores count ++ name, value)))
        (ancestorEntries (underscores (count + 1)) rest) := by
  rw [ancestorEntries, setAll_append, underscores_succ]

theorem lookup_of_unnamed {key : String} : ∀ {near : List Fields} {count : Nat} (context : Fields),
    (∀ ancestor ∈ near, (Fields.keys ancestor).Nodup) → (∀ level value, ¬ IsNamed count near level key value) →
      (setAll context (ancestorEntries (underscores count) near)).lookup key = context.lookup key
  | [], _, _, _, _ => rfl
  | ancestor :: rest, count, context, hnodup, hunnamed => by
    obtain ⟨hancestor, hrest⟩ := List.forall_mem_cons.mp hnodup
    have hlayer : (ancestor.map fun (name, value) => (underscores count ++ name, value)).lookup key = none := by
      rw [Option.eq_none_iff_forall_ne_some]
      intro value hvalue
      exact hunnamed 0 value (isNamed_zero.mpr ((lookup_prefixed hancestor count).mp hvalue))
    have hfurther : ∀ level value, ¬ IsNamed (count + 1) rest level key value :=
      fun level value h => hunnamed (level + 1) value (isNamed_succ.mpr h)
    rw [setAll_ancestorEntries, lookup_of_unnamed _ hrest hfurther,
      lookup_setAll (nodup_prefixed hancestor count), hlayer, Option.none_or]

theorem lookup_of_outermost {key : String} {value : Json} :
    ∀ {near : List Fields} {count level : Nat} (context : Fields),
    (∀ ancestor ∈ near, (Fields.keys ancestor).Nodup) → IsNamed count near level key value →
      (∀ further other, level < further → ¬ IsNamed count near further key other) →
      (setAll context (ancestorEntries (underscores count) near)).lookup key = some value
  | [], _, _, _, _, h, _ => by
    obtain ⟨_, _, hnone, -⟩ := h
    cases hnone
  | ancestor :: rest, count, 0, context, hnodup, h, houtermost => by
    obtain ⟨hancestor, hrest⟩ := List.forall_mem_cons.mp hnodup
    -- the layers further out leave the key alone, so it shows what this one puts there
    have hfurther : ∀ level other, ¬ IsNamed (count + 1) rest level key other :=
      fun level other hother => houtermost (level + 1) other (Nat.zero_lt_succ level) (isNamed_succ.mpr hother)
    have hlayer := (lookup_prefixed hancestor count).mpr (isNamed_zero.mp h)
    rw [setAll_ancestorEntries, lookup_of_unnamed _ hrest hfurther,
      lookup_setAll (nodup_prefixed hancestor count), hlayer, Option.some_or]
  | ancestor :: rest, count, level + 1, context, hnodup, h, houtermost => by
    rw [setAll_ancestorEntries]
    refine lookup_of_outermost _ (List.forall_mem_cons.mp hnodup).2 (isNamed_succ.mp h) ?_
    intro further other hlt hother
    exact houtermost (further + 1) other (Nat.succ_lt_succ hlt) (isNamed_succ.mpr hother)

theorem unnamed_further {near : List Fields} {count level further : Nat} {field : String}
    (hfield : field.toList.head? ≠ some '_') (hlt : level < further) (other : Json) :
    ¬ IsNamed count near further (underscores (count + level) ++ field) other := by
  intro h
  obtain ⟨_, _, -, hkey, -⟩ := h
  exact hfield (head_of_more_underscores (Nat.add_lt_add_left hlt count) hkey)

def reserve (defaults : Fields) (mode : String) (index : Nat) : Fields :=
  Fields.set (Fields.set defaults modeKey (.str mode)) indexKey (.num (.int index))

theorem lookup_reserve (defaults : Fields) (mode : String) (index : Nat) (key : String) :
    (reserve defaults mode index).lookup key =
      ([(modeKey, .str mode), (indexKey, .num (.int index))].lookup key).or (defaults.lookup key) := by
  have hne : modeKey ≠ indexKey := by decide
  rw [reserve, Fields.lookup_set, Fields.lookup_set, lookup_cons_ite, lookup_cons_ite, List.lookup_nil]
  by_cases hindex : key = indexKey
  · rw [if_pos hindex, if_pos hindex, if_neg (hindex ▸ hne.symm)]
    rfl
  · rw [if_neg hindex, if_neg hindex]
    split <;> rfl

section
variable {selection : Fields} {ancestors : List Fields} (hselection : (Fields.keys selection).Nodup)
  (hancestors : ∀ ancestor ∈ ancestors, (Fields.keys ancestor).Nodup)
include hselection hancestors

/-- **Contexts.** A key shows the value of the outermost ancestor that has a field for it; a field stands
under its name behind as many underscores as the ancestor is steps away. A key for which no ancestor has
a field shows the value of the selection, else the mode or the number, else the default. The fields that
do not begin with an underscore always show the value of their own ancestor. -/
theorem lookup_build (defaults : Fields) (mode : String) (index : Nat) :
    (∀ key level value, IsNamed 1 ancestors.reverse level key value →
      (∀ further other, level < further → ¬ IsNamed 1 ancestors.reverse further key other) →
      (build defaults mode index selection ancestors).lookup key = some value) ∧
    (∀ key, (∀ level value, ¬ IsNamed 1 ancestors.reverse level key value) →
      (build defaults mode index selection ancestors).lookup key =
        ((selection.lookup key).or ([(modeKey, .str mode), (indexKey, .num (.int index))].lookup key)).or
          (defaults.lookup key)) ∧
    ∀ (level : Nat) ancestor field value, ancestors.reverse[level]? = some ancestor →
      ancestor.lookup field = some value → field.toList.head? ≠ some '_' →
      (build defaults mode index selection ancestors).lookup (underscores (1 + level) ++ field) = some value := by
  have hnear : ∀ ancestor ∈ ancestors.reverse, (Fields.keys ancestor).Nodup :=
    fun ancestor hmem => hancestors ancestor (List.mem_reverse.mp hmem)
  refine ⟨fun key level value h houtermost => ?_, fun key hunnamed => ?_, ?_⟩
  · exact lookup_of_outermost _ hnear h houtermost
  · have hentries : (build defaults mode index selection ancestors).lookup key =
        (setAll (reserve defaults mode index) selection).lookup key :=
      lookup_of_unnamed _ hnear hunnamed
    rw [hentries, lookup_setAll hselection, lookup_reserve, Option.or_assoc]
  · intro level ancestor field value hlevel hvalue hfield
    have h : IsNamed 1 ancestors.reverse level (underscores (1 + level) ++ field) value :=
      ⟨ancestor, field, hlevel, rfl, hvalue⟩
    exact lookup_of_outermost _ hnear h fun further other hlt => unnamed_further hfield hlt other

end

/-- Two ancestors of which the closest, standing last, has a field that comes to the same key as one of the other. -/
def rivals : List Fields :=
  [[("name", .str "suite"), ("x", .str "outer")], [("name", .str "group"), ("_x", .str "inner")]]

theorem outer_rival_shown : (Fields.keys [("x", .str "own")]).Nodup ∧
    (∀ ancestor ∈ rivals, (Fields.keys ancestor).Nodup) ∧
    (build [] "debug" 3 [("x", .str "own")] rivals).lookup "__x" = some (.str "outer") ∧
    (build [] "debug" 3 [("x", .str "own")] rivals).lookup "_name" = some (.str "group") := by
  have hselection : (Fields.keys [("x", .str "own")]).Nodup := by decide
  have hrivals : ∀ ancestor ∈ rivals, (Fields.keys ancestor).Nodup := by
    intro ancestor hmem
    simp only [rivals, List.mem_cons, List.not_mem_nil, or_false] at hmem
    rcases hmem with rfl | rfl
    · decide
    · decide
  obtain ⟨houtermost, -, hown⟩ := lookup_build hselection hrivals [] "debug" 3
  refine ⟨hselection, hrivals, ?_, ?_⟩
  · refine houtermost "__x" 1 (.str "outer") ⟨_, "x", rfl, rfl, rfl⟩ ?_
    intro further other hlt h
    -- there is no third ancestor
    obtain ⟨ancestor, -, hnone, -⟩ := h
    have hlength := (List.getElem?_eq_some_iff.mp hnone).1
    simp only [rivals, List.length_reverse, List.length_cons, List.length_nil] at hlength
    omega
  · exact hown 0 _ "name" (.str "group") rfl rfl (by decide)

end Context

end TestMatrix
