import Mathlib.Data.List.Forall2
import TestMatrix.Proofs.Nodes
import TestMatrix.Proofs.Tables

/-!
# Documents with distinct keys

A field list may repeat a key, a mapping of a document does not. On documents without repeated keys
looking up a key finds the field, and equality of values is reflexive.
-/

namespace TestMatrix

namespace Fields

theorem keys_cons (key : String) (value : Json) (rest : Fields) :
    keys ((key, value) :: rest) = key :: keys rest := rfl

theorem mem_keys_of_mem {fields : Fields} {key : String} {value : Json} (h : (key, value) ∈ fields) :
    key ∈ keys fields := List.mem_map.mpr ⟨(key, value), h, rfl⟩

theorem lookup_of_mem {fields : Fields} (hnodup : (keys fields).Nodup) {key : String} {value : Json}
    (h : (key, value) ∈ fields) : fields.lookup key = some value := by
  induction fields with
  | nil => cases h
  | cons entry rest ih =>
    obtain ⟨k, v⟩ := entry
    rw [keys_cons, List.nodup_cons] at hnodup
    rw [lookup_cons_ite]
    rcases List.mem_cons.mp h with h | h
    · cases h; rw [if_pos rfl]
    · have hk : key ≠ k := fun e => hnodup.1 (e ▸ mem_keys_of_mem h)
      rw [if_neg hk]; exact ih hnodup.2 h

theorem lookup_eq_some_iff {fields : Fields} (hnodup : (keys fields).Nodup) {key : String} {value : Json} :
    fields.lookup key = some value ↔ (key, value) ∈ fields := ⟨mem_of_lookup, lookup_of_mem hnodup⟩

theorem mem_set {fields : Fields} {key : String} {value : Json} {entry : String × Json}
    (h : entry ∈ set fields key value) : entry ∈ fields ∨ entry = (key, value) := by
  induction fields with
  | nil => exact Or.inr (List.mem_singleton.mp h)
  | cons other rest ih =>
    obtain ⟨k, v⟩ := other
    rw [set] at h
    by_cases hk : k = key
    · rw [if_pos hk] at h
      rcases List.mem_cons.mp h with h | h
      · exact Or.inr h
      · exact Or.inl (List.mem_cons_of_mem _ h)
    · rw [if_neg hk] at h
      rcases List.mem_cons.mp h with h | h
      · exact Or.inl (List.mem_cons.mpr (Or.inl h))
      · exact (ih h).imp_left (List.mem_cons_of_mem _)

theorem set_of_notMem {fields : Fields} {key : String} (value : Json) (h : key ∉ keys fields) :
    set fields key value = fields ++ [(key, value)] := by
  induction fields with
  | nil => rfl
  | cons other rest ih =>
    obtain ⟨k, v⟩ := other
    rw [keys_cons, List.mem_cons, not_or] at h
    rw [set, if_neg (Ne.symm h.1), ih h.2, List.cons_append]

theorem keys_set (fields : Fields) (key : String) (value : Json) :
    keys (set fields key value) = if key ∈ keys fields then keys fields else keys fields ++ [key] := by
  induction fields with
  | nil => rfl
  | cons other rest ih =>
    obtain ⟨k, v⟩ := other
    rw [set, keys_cons]
    by_cases hk : k = key
    · simp [hk, keys_cons]
    · rw [if_neg hk, keys_cons, ih]
      by_cases hmem : key ∈ keys rest
      · rw [if_pos hmem, if_pos (List.mem_cons_of_mem k hmem)]
      · have hnot : key ∉ k :: keys rest := by
          rw [List.mem_cons, not_or]
          exact ⟨Ne.symm hk, hmem⟩
        rw [if_neg hmem, if_neg hnot, List.cons_append]

theorem nodup_set {fields : Fields} (h : (keys fields).Nodup) (key : String) (value : Json) :
    (keys (set fields key value)).Nodup := by
  rw [keys_set]
  by_cases hmem : key ∈ keys fields
  · rwa [if_pos hmem]
  · rw [if_neg hmem, List.nodup_append]
    refine ⟨h, List.pairwise_singleton .., ?_⟩
    rintro a ha b hb rfl
    exact hmem (List.mem_singleton.mp hb ▸ ha)

theorem nodup_foldl_set {entries fields : Fields} (h : (keys fields).Nodup) :
    (keys (entries.foldl (fun fields entry => set fields entry.1 entry.2) fields)).Nodup := by
  induction entries generalizing fields with
  | nil => exact h
  | cons entry rest ih => exact ih (nodup_set h _ _)

theorem lookup_set (fields : Fields) (key name : String) (value : Json) :
    (set fields key value).lookup name = if name = key then some value else fields.lookup name := by
  induction fields with
  | nil => rw [set, lookup_cons_ite]
  | cons other rest ih =>
    obtain ⟨k, v⟩ := other
    rw [set]
    by_cases hk : k = key
    · rw [if_pos hk, lookup_cons_ite, lookup_cons_ite, hk]
      by_cases hname : name = key <;> simp [hname]
    · rw [if_neg hk, lookup_cons_ite, lookup_cons_ite, ih]
      by_cases hname : name = k
      · rw [if_pos hname, if_pos hname, if_neg (hname ▸ hk)]
      · rw [if_neg hname, if_neg hname]

theorem lookup_foldl_set (name : String) : ∀ (entries fields : Fields),
    (entries.foldl (fun fields entry => set fields entry.1 entry.2) fields).lookup name =
      ((entries.filterMap fun entry => if entry.1 = name then some entry.2 else none).getLast?).or
        (fields.lookup name)
  | [], fields => rfl
  | (key, value) :: rest, fields => by
    rw [List.foldl_cons, lookup_foldl_set name rest, lookup_set, getLast?_filterMap_cons, Option.or_assoc]
    by_cases h : key = name
    · rw [if_pos h.symm, if_pos h]; rfl
    · rw [if_neg (Ne.symm h), if_neg h]; rfl

/-- The mapping of a list of entries holds the last value of each key. -/
theorem lookup_ofEntries (entries : Fields) (name : String) :
    (ofEntries entries).lookup name =
      (entries.filterMap fun entry => if entry.1 = name then some entry.2 else none).getLast? := by
  rw [ofEntries, lookup_foldl_set, List.lookup_nil, Option.or_none]

theorem nodup_ofEntries (entries : Fields) : (keys (ofEntries entries)).Nodup :=
  @nodup_foldl_set entries [] List.nodup_nil

theorem foldl_set_of_nodup {entries fields : Fields} (h : (keys (fields ++ entries)).Nodup) :
    entries.foldl (fun fields entry => set fields entry.1 entry.2) fields = fields ++ entries := by
  induction entries generalizing fields with
  | nil => simp
  | cons entry rest ih =>
    obtain ⟨k, v⟩ := entry
    have hk : k ∉ keys fields := by
      unfold keys at h ⊢
      rw [List.map_append, List.nodup_append] at h
      exact fun hmem => h.2.2 _ hmem k (List.mem_cons_self ..) rfl
    rw [List.foldl_cons, set_of_notMem v hk, ih (by simpa using h)]
    simp

/-- Entries with distinct keys are a mapping as they stand. -/
theorem ofEntries_of_nodup {entries : Fields} (h : (keys entries).Nodup) : ofEntries entries = entries :=
  @foldl_set_of_nodup entries [] h

end Fields

theorem Number.same_refl (n : Number) : n.same n = true := by
  cases n <;> simp [same, Double.same]

namespace Json

mutual
/-- Whether no mapping of the document has a key twice. -/
def hasDistinctKeys : Json → Bool
  | .arr items => itemsHaveDistinctKeys items
  | .obj fields => decide (Fields.keys fields).Nodup && fieldsHaveDistinctKeys fields
  | _ => true
def itemsHaveDistinctKeys : List Json → Bool
  | [] => true
  | item :: rest => item.hasDistinctKeys && itemsHaveDistinctKeys rest
def fieldsHaveDistinctKeys : List (String × Json) → Bool
  | [] => true
  | (_, value) :: rest => value.hasDistinctKeys && fieldsHaveDistinctKeys rest
end

theorem itemsHaveDistinctKeys_iff : ∀ items : List Json,
    itemsHaveDistinctKeys items = true ↔ ∀ item ∈ items, item.hasDistinctKeys = true
  | [] => by simp [itemsHaveDistinctKeys]
  | item :: rest => by
    rw [itemsHaveDistinctKeys, Bool.and_eq_true, itemsHaveDistinctKeys_iff rest, List.forall_mem_cons]

theorem fieldsHaveDistinctKeys_iff : ∀ fields : List (String × Json),
    fieldsHaveDistinctKeys fields = true ↔ ∀ entry ∈ fields, entry.2.hasDistinctKeys = true
  | [] => by simp [fieldsHaveDistinctKeys]
  | (key, value) :: rest => by
    rw [fieldsHaveDistinctKeys, Bool.and_eq_true, fieldsHaveDistinctKeys_iff rest, List.forall_mem_cons]

theorem hasDistinctKeys_arr {items : List Json} :
    (Json.arr items).hasDistinctKeys = true ↔ ∀ item ∈ items, item.hasDistinctKeys = true := by
  rw [hasDistinctKeys, itemsHaveDistinctKeys_iff]

theorem hasDistinctKeys_obj {fields : Fields} :
    (Json.obj fields).hasDistinctKeys = true ↔
      (Fields.keys fields).Nodup ∧ ∀ entry ∈ fields, entry.2.hasDistinctKeys = true := by
  rw [hasDistinctKeys, Bool.and_eq_true, decide_eq_true_eq, fieldsHaveDistinctKeys_iff]

theorem hasDistinctKeys_of_child {value child : Json} {segment : Segment}
    (h : value.hasDistinctKeys = true) (hmem : (segment, child) ∈ value.children) :
    child.hasDistinctKeys = true := by
  cases value with
  | arr items =>
    obtain ⟨⟨item, position⟩, hitem, he⟩ := List.mem_map.mp hmem
    cases he
    exact hasDistinctKeys_arr.mp h _ (List.fst_mem_of_mem_zipIdx hitem)
  | obj fields =>
    obtain ⟨entry, hentry, he⟩ := List.mem_map.mp hmem
    cases he
    exact (hasDistinctKeys_obj.mp h).2 entry hentry
  | _ => cases hmem

theorem Reached.hasDistinctKeys {enter : TreePath → Segment → Json → Prop} {start path : TreePath}
    {top value : Json} (htop : top.hasDistinctKeys = true) (h : Reached enter start top path value) :
    value.hasDistinctKeys = true := by
  induction h with
  | top => exact htop
  | child _ hmem _ ih => exact hasDistinctKeys_of_child ih hmem

theorem child_unique {value first second : Json} {segment : Segment} (h : value.hasDistinctKeys = true)
    (hfirst : (segment, first) ∈ value.children) (hsecond : (segment, second) ∈ value.children) :
    first = second := by
  cases value with
  | arr items =>
    obtain ⟨⟨item, position⟩, hitem, he⟩ := List.mem_map.mp hfirst
    obtain ⟨⟨other, position'⟩, hother, he'⟩ := List.mem_map.mp hsecond
    cases he
    cases he'
    rw [List.mem_zipIdx_iff_getElem?] at hitem hother
    exact Option.some.inj (hitem.symm.trans hother)
  | obj fields =>
    obtain ⟨⟨key, field⟩, hfield, he⟩ := List.mem_map.mp hfirst
    obtain ⟨⟨key', other⟩, hother, he'⟩ := List.mem_map.mp hsecond
    obtain ⟨hkey, rfl⟩ := Prod.mk.inj he
    obtain ⟨hkey', rfl⟩ := Prod.mk.inj he'
    cases Segment.ofKey_inj (hkey.trans hkey'.symm)
    have hnodup := (hasDistinctKeys_obj.mp h).1
    have hvalue := Fields.lookup_of_mem hnodup hfield
    rw [Fields.lookup_of_mem hnodup hother] at hvalue
    exact (Option.some.inj hvalue).symm
  | _ => cases hfirst

/-- A path leads to one node only. -/
theorem Reached.unique {enter : TreePath → Segment → Json → Prop} {start path : TreePath}
    {top value : Json} (htop : top.hasDistinctKeys = true) (h : Reached enter start top path value) :
    ∀ {other : Json}, Reached enter start top path other → value = other := by
  induction h with
  | top =>
    intro other hother
    obtain ⟨-, rfl⟩ | ⟨above, parent, segment, he, h, -⟩ := hother.eq_or_child
    · rfl
    · exact absurd he.symm (h.child_ne_start segment)
  | @child path value segment child h hmem _ ih =>
    intro other hother
    obtain ⟨he, -⟩ | ⟨above, parent, segment', he, hparent, hmem'⟩ := hother.eq_or_child
    · exact absurd he (h.child_ne_start segment)
    · obtain ⟨rfl, rfl⟩ := TreePath.child_inj.mp he
      cases ih hparent
      exact child_unique (h.hasDistinctKeys htop) hmem hmem'

/-! ## Equality of values -/

theorem sameItems_iff : ∀ xs ys : List Json,
    sameItems xs ys = true ↔ List.Forall₂ (fun x y => x.same y = true) xs ys
  | [], [] => by simp [sameItems]
  | [], _ :: _ => by simp [sameItems]
  | _ :: _, [] => by simp [sameItems]
  | x :: xs, y :: ys => by
    rw [sameItems, Bool.and_eq_true, sameItems_iff xs ys, List.forall₂_cons]

theorem sameFields_iff : ∀ fs gs : List (String × Json),
    sameFields fs gs = true ↔ ∀ key x, (key, x) ∈ fs → ∃ y, gs.lookup key = some y ∧ x.same y = true
  | [], gs => by simp [sameFields]
  | (key, x) :: rest, gs => by
    rw [sameFields, Bool.and_eq_true, sameFields_iff rest gs]
    constructor
    · rintro ⟨hhere, hrest⟩ key' x' hmem
      rcases List.mem_cons.mp hmem with h | h
      · cases h
        cases hlookup : gs.lookup key with
        | none => rw [hlookup] at hhere; cases hhere
        | some y => rw [hlookup] at hhere; exact ⟨y, rfl, hhere⟩
      · exact hrest key' x' h
    · intro h
      obtain ⟨y, hlookup, hsame⟩ := h key x (List.mem_cons_self ..)
      refine ⟨by rw [hlookup]; exact hsame, fun key' x' hmem => h key' x' (List.mem_cons_of_mem _ hmem)⟩

/-- Without distinct keys this fails: the second of two fields of one key is not found. -/
theorem same_refl (value : Json) : value.hasDistinctKeys = true → value.same value = true := by
  induction value using children_induction with
  | step value ih =>
    intro h
    cases value with
    | arr items =>
      rw [same, sameItems_iff, List.forall₂_same]
      intro item hmem
      obtain ⟨segment, hchild⟩ := item_mem_children hmem
      exact ih _ item hchild (hasDistinctKeys_of_child h hchild)
    | obj fields =>
      rw [same, Bool.and_eq_true, sameFields_iff]
      refine ⟨beq_self_eq_true _, fun key x hmem => ⟨x, ?_, ?_⟩⟩
      · exact Fields.lookup_of_mem (hasDistinctKeys_obj.mp h).1 hmem
      · have hchild := field_mem_children hmem
        exact ih _ x hchild (hasDistinctKeys_of_child h hchild)
    | num n => exact n.same_refl
    | _ => simp [same]

end Json

end TestMatrix
