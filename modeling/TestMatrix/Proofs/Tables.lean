import TestMatrix.Table

/-!
# Tables and prefixes

What a table answers after an insertion, which paths a sorted list of paths holds, and which
paths lie above a path.
-/

namespace TestMatrix

theorem Segment.ofKey_inj {a b : String} (h : Segment.ofKey a = .ofKey b) : a = b := by
  unfold ofKey at h
  by_cases ha : a = Json.wildcard
  · by_cases hb : b = Json.wildcard
    · rw [ha, hb]
    · rw [dif_pos ha, dif_neg hb] at h; cases h
  · by_cases hb : b = Json.wildcard
    · rw [dif_neg ha, dif_pos hb] at h; cases h
    · rw [dif_neg ha, dif_neg hb] at h; cases h; rfl

theorem Segment.ofKey_eq_key {key name : String} {h : name ≠ Json.wildcard} :
    Segment.ofKey key = .key name h ↔ key = name := by
  unfold ofKey
  split
  · next hstar => simp [hstar, Ne.symm h]
  · simp

theorem Segment.ofKey_eq_wildcard {key : String} : Segment.ofKey key = .wildcard ↔ key = Json.wildcard := by
  unfold ofKey
  split
  · next hstar => simp [hstar]
  · next hstar => simp [hstar]

theorem Segment.compare_eq {a b : Segment} (h : compare a b = .eq) : a = b := by
  cases a with
  | key x _ =>
    cases b with
    | key y _ =>
      have hxy : compare x y = .eq := h
      have := Std.compare_eq_iff_eq.mp hxy
      subst this; rfl
    | index _ => cases h
    | wildcard => cases h
  | index x =>
    cases b with
    | key _ _ => cases h
    | index y =>
      have hxy : compare x y = .eq := h
      have := Std.compare_eq_iff_eq.mp hxy
      subst this; rfl
    | wildcard => cases h
  | wildcard =>
    cases b with
    | key _ _ => cases h
    | index _ => cases h
    | wildcard => rfl

theorem Segment.compare_refl (a : Segment) : compare a a = .eq := by
  cases a with
  | key x _ => exact Std.ReflOrd.compare_self (a := x)
  | index x => exact Std.ReflOrd.compare_self (a := x)
  | wildcard => rfl

instance : Std.LawfulEqOrd Segment where
  compare_self := Segment.compare_refl _
  eq_of_compare := Segment.compare_eq

theorem Segment.compare_swap (a b : Segment) : compare a b = (compare b a).swap := by
  cases a with
  | key x _ => cases b with
    | key y _ => exact Std.OrientedOrd.eq_swap (a := x)
    | _ => rfl
  | index x => cases b with
    | index y => exact Std.OrientedOrd.eq_swap (a := x)
    | _ => rfl
  | wildcard => cases b <;> rfl

theorem Segment.isLE_trans {a b c : Segment} (hab : (compare a b).isLE = true)
    (hbc : (compare b c).isLE = true) : (compare a c).isLE = true := by
  cases a with
  | key x _ => cases c with
    | key z _ => cases b with
      | key y _ => exact Std.TransOrd.isLE_trans (a := x) (b := y) hab hbc
      | _ => cases hbc
    | _ => rfl
  | index x => cases c with
    | key _ _ => cases b with
      | key _ _ => cases hab
      | _ => cases hbc
    | index z => cases b with
      | key _ _ => cases hab
      | index y => exact Std.TransOrd.isLE_trans (a := x) (b := y) hab hbc
      | wildcard => cases hbc
    | wildcard => rfl
  | wildcard => cases b with
    | wildcard => exact hbc
    | _ => cases hab

instance : Std.TransOrd Segment where
  eq_swap := Segment.compare_swap _ _
  isLE_trans := Segment.isLE_trans

theorem lookup_cons_ite {κ β : Type} [BEq κ] [LawfulBEq κ] [DecidableEq κ] (key other : κ) (value : β)
    (rest : List (κ × β)) :
    List.lookup key ((other, value) :: rest) = if key = other then some value else rest.lookup key := by
  rw [List.lookup_cons]
  by_cases h : key = other
  · simp [h]
  · rw [beq_false_of_ne h, if_neg h]

theorem getLast?_filterMap_cons {α β : Type} (f : α → Option β) (a : α) (rest : List α) :
    ((a :: rest).filterMap f).getLast? = ((rest.filterMap f).getLast?).or (f a) := by
  rw [List.filterMap_cons]
  cases f a with
  | none => rw [Option.or_none]
  | some b =>
    dsimp only
    rw [List.getLast?_cons]
    cases (rest.filterMap f).getLast? <;> rfl

/-- Entries under other keys do not matter to a lookup. -/
theorem lookup_filter {κ β : Type} [BEq κ] [LawfulBEq κ] [DecidableEq κ] {p : κ → Bool} {key : κ}
    (hkey : p key = true) : ∀ entries : List (κ × β),
      (entries.filter fun entry => p entry.1).lookup key = entries.lookup key
  | [] => rfl
  | (other, value) :: rest => by
    rw [List.filter_cons, lookup_cons_ite]
    by_cases hother : p other = true
    · rw [if_pos hother, lookup_cons_ite, lookup_filter hkey rest]
    · have hne : key ≠ other := by
        rintro rfl
        exact hother hkey
      rw [if_neg hother, if_neg hne, lookup_filter hkey rest]

theorem mem_of_lookup {κ β : Type} [BEq κ] [LawfulBEq κ] {list : List (κ × β)} {key : κ} {value : β}
    (h : list.lookup key = some value) : (key, value) ∈ list := by
  obtain ⟨before, after, rfl, -⟩ := List.lookup_eq_some_iff.mp h
  exact List.mem_append_right _ (List.mem_cons_self ..)

namespace Table

variable {α : Type}

theorem lookup_insertEntry (path q : TreePath) (value : α) :
    ∀ entries : List (TreePath × α),
      (insertEntry path value entries).lookup q =
        if q = path then some value else entries.lookup q
  | [] => by
    rw [insertEntry, lookup_cons_ite]
  | (p, v) :: rest => by
    simp only [insertEntry]
    split
    · rw [lookup_cons_ite]
    · next heq =>
      have hp : path = p := Std.compare_eq_iff_eq.mp heq
      subst hp
      rw [lookup_cons_ite, lookup_cons_ite]
      by_cases h : q = path <;> simp [h]
    · next hgt =>
      have hp : p ≠ path := by
        rintro rfl
        have : compare p p = .eq := Std.compare_eq_iff_eq.mpr rfl
        rw [this] at hgt; cases hgt
      rw [lookup_cons_ite, lookup_insertEntry path q value rest, lookup_cons_ite]
      by_cases h : q = path
      · subst h; simp [Ne.symm hp]
      · simp [h]

theorem get?_insert (table : Table α) (path : TreePath) (value : α) (q : TreePath) :
    (table.insert path value).get? q = if q = path then some value else table.get? q :=
  lookup_insertEntry path q value table.entries

@[simp] theorem get?_empty (q : TreePath) : (empty : Table α).get? q = none := rfl

theorem contains_insert (table : Table α) (path : TreePath) (value : α) (q : TreePath) :
    (table.insert path value).contains q = true ↔ q = path ∨ table.contains q = true := by
  unfold contains
  rw [get?_insert]
  by_cases h : q = path <;> simp [h]

theorem contains_iff_mem_keys (table : Table α) (q : TreePath) :
    table.contains q = true ↔ q ∈ table.entries.map Prod.fst := by
  unfold contains get?
  induction table.entries with
  | nil => simp
  | cons entry rest ih =>
    rw [lookup_cons_ite, List.map_cons, List.mem_cons, ← ih]
    by_cases h : q = entry.1 <;> simp [h]

/-- Each path stands before the paths of all later entries. -/
def Sorted (table : Table α) : Prop := table.entries.Pairwise fun a b => compare a.1 b.1 = .lt

theorem sorted_empty : (empty : Table α).Sorted := .nil

theorem mem_insertEntry {path : TreePath} {value : α} {entries : List (TreePath × α)} {entry : TreePath × α}
    (h : entry ∈ insertEntry path value entries) : entry = (path, value) ∨ entry ∈ entries := by
  induction entries with
  | nil => exact Or.inl (List.mem_singleton.mp h)
  | cons other rest ih =>
    unfold insertEntry at h
    split at h
    · exact List.mem_cons.mp h
    · exact (List.mem_cons.mp h).imp_right (List.mem_cons_of_mem _)
    · rcases List.mem_cons.mp h with h | h
      · exact Or.inr (List.mem_cons.mpr (Or.inl h))
      · exact (ih h).imp_right (List.mem_cons_of_mem _)

theorem sorted_insert {table : Table α} (h : table.Sorted) (path : TreePath) (value : α) :
    (table.insert path value).Sorted := by
  obtain ⟨entries⟩ := table
  show (insertEntry path value entries).Pairwise _
  induction entries with
  | nil => exact List.pairwise_singleton _ _
  | cons other rest ih =>
    obtain ⟨hother, hrest⟩ := List.pairwise_cons.mp h
    unfold insertEntry
    split
    · next hlt =>
      refine List.pairwise_cons.mpr ⟨fun entry hmem => ?_, h⟩
      rcases List.mem_cons.mp hmem with rfl | hmem
      · exact hlt
      · exact Std.TransCmp.lt_trans hlt (hother entry hmem)
    · next heq =>
      rw [← Std.compare_eq_iff_eq.mp heq] at hother
      exact List.pairwise_cons.mpr ⟨hother, hrest⟩
    · next hgt =>
      refine List.pairwise_cons.mpr ⟨fun entry hmem => ?_, ih hrest⟩
      rcases mem_insertEntry hmem with rfl | hmem
      · exact Std.OrientedCmp.gt_iff_lt.mp hgt
      · exact hother entry hmem

/-- In a sorted table an entry is the answer at its path. -/
theorem get?_eq_some_iff {table : Table α} (h : table.Sorted) {path : TreePath} {value : α} :
    table.get? path = some value ↔ (path, value) ∈ table.entries := by
  refine ⟨mem_of_lookup, fun hmem => ?_⟩
  obtain ⟨entries⟩ := table
  show entries.lookup path = some value
  induction entries with
  | nil => cases hmem
  | cons other rest ih =>
    obtain ⟨place, found⟩ := other
    obtain ⟨hother, hrest⟩ := List.pairwise_cons.mp h
    rw [lookup_cons_ite]
    rcases List.mem_cons.mp hmem with hhere | hlater
    · cases hhere
      exact if_pos rfl
    · have hne : path ≠ place := by
        rintro rfl
        have hlt := hother _ hlater
        rw [Std.ReflOrd.compare_self] at hlt
        cases hlt
      rw [if_neg hne]
      exact ih hrest hlater

end Table

theorem contains_foldl_insert (paths : List TreePath) (q : TreePath) :
    ∀ table : Table Unit,
      (paths.foldl (fun table path => table.insert path ()) table).contains q = true ↔
        q ∈ paths ∨ table.contains q = true := by
  induction paths with
  | nil => simp
  | cons path rest ih =>
    intro table
    rw [List.foldl_cons, ih, Table.contains_insert, List.mem_cons]
    constructor
    · rintro (h | h | h)
      · exact Or.inl (Or.inr h)
      · exact Or.inl (Or.inl h)
      · exact Or.inr h
    · rintro ((h | h) | h)
      · exact Or.inr (Or.inl h)
      · exact Or.inl h
      · exact Or.inr (Or.inr h)

theorem mem_sortedPaths {q : TreePath} {paths : List TreePath} : q ∈ sortedPaths paths ↔ q ∈ paths := by
  unfold sortedPaths
  rw [← Table.contains_iff_mem_keys, contains_foldl_insert]
  simp [Table.contains]

theorem sorted_foldl_insert (paths : List TreePath) : ∀ {table : Table Unit}, table.Sorted →
    (paths.foldl (fun table path => table.insert path ()) table).Sorted := by
  induction paths with
  | nil => exact id
  | cons path rest ih => exact fun h => ih (Table.sorted_insert h path ())

theorem sortedPaths_pairwise (paths : List TreePath) : (sortedPaths paths).Pairwise fun p q => compare p q = .lt :=
  List.pairwise_map.mpr (sorted_foldl_insert paths Table.sorted_empty)

/-- A list of paths is put in order by its members alone. -/
theorem sortedPaths_congr {first second : List TreePath} (h : ∀ path, path ∈ first ↔ path ∈ second) :
    sortedPaths first = sortedPaths second := by
  have hne {p q : TreePath} (hlt : compare p q = .lt) : p ≠ q := by
    rintro rfl
    rw [Std.ReflOrd.compare_self] at hlt
    cases hlt
  have hperm : (sortedPaths first).Perm (sortedPaths second) := by
    refine (List.perm_ext_iff_of_nodup ((sortedPaths_pairwise _).imp hne) ((sortedPaths_pairwise _).imp hne)).mpr ?_
    intro path
    rw [mem_sortedPaths, mem_sortedPaths, h]
  refine hperm.eq_of_pairwise ?_ (sortedPaths_pairwise _) (sortedPaths_pairwise _)
  intro p q _ _ hlt hgt
  exact absurd rfl (hne (Std.TransCmp.lt_trans hlt hgt))

/-! ## Prefixes -/

namespace TreePath

theorem mem_prefixes {q : TreePath} : ∀ {path : TreePath}, q ∈ prefixes path ↔ q <+: path
  | [] => by simp [prefixes]
  | segment :: rest => by
    simp only [prefixes, List.mem_cons, List.mem_map, List.prefix_cons_iff]
    constructor
    · rintro (h | ⟨p, hp, rfl⟩)
      · exact Or.inl h
      · exact Or.inr ⟨p, rfl, mem_prefixes.mp hp⟩
    · rintro (h | ⟨p, rfl, hp⟩)
      · exact Or.inl h
      · exact Or.inr ⟨p, mem_prefixes.mpr hp, rfl⟩

theorem generalize_prefix {path below : TreePath} (h : path <+: below) :
    generalize path <+: generalize below := h.map _

theorem prefix_child (path : TreePath) (segment : Segment) : path <+: path.child segment :=
  List.prefix_append _ _

end TreePath

end TestMatrix
