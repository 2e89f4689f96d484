import Mathlib.Data.List.Basic
import TestMatrix.Text.Parts

/-!
# Parts between slashes

A text divided at its slashes has parts without slashes, and texts joined with slashes have the parts of
each of them. Joining is undone by dividing if every text is a part already. Where empty parts are dropped,
no text may be empty either.
-/

namespace TestMatrix

theorem splitSlash_ne_nil : ∀ chars : List Char, splitSlash chars ≠ []
  | [] => by simp [splitSlash]
  | c :: rest => by
    rw [splitSlash]
    by_cases h : c = '/'
    · rw [if_pos h]; exact List.cons_ne_nil _ _
    · rw [if_neg h]
      cases splitSlash rest <;> exact List.cons_ne_nil _ _

theorem splitSlash_slash (rest : List Char) : splitSlash ('/' :: rest) = [] :: splitSlash rest := rfl

theorem splitSlash_cons {c : Char} (h : c ≠ '/') (rest : List Char) :
    ∃ part parts, splitSlash rest = part :: parts ∧ splitSlash (c :: rest) = (c :: part) :: parts := by
  obtain ⟨part, parts, hrest⟩ := List.exists_cons_of_ne_nil (splitSlash_ne_nil rest)
  exact ⟨part, parts, hrest, by rw [splitSlash, if_neg h, hrest]⟩

theorem splitSlash_append (front back : List Char) :
    splitSlash (front ++ '/' :: back) = splitSlash front ++ splitSlash back := by
  induction front with
  | nil => rfl
  | cons c rest ih =>
    by_cases h : c = '/'
    · rw [h, List.cons_append, splitSlash_slash, splitSlash_slash, ih, List.cons_append]
    · obtain ⟨part, parts, hrest, hcons⟩ := splitSlash_cons h rest
      obtain ⟨part', parts', hrest', hcons'⟩ := splitSlash_cons h (rest ++ '/' :: back)
      rw [ih, hrest, List.cons_append] at hrest'
      obtain ⟨rfl, rfl⟩ := List.cons.inj hrest'
      rw [List.cons_append, hcons', hcons, List.cons_append]

theorem mem_splitSlash {c : Char} (hc : c ≠ '/') : ∀ chars : List Char,
    c ∈ chars ↔ ∃ part ∈ splitSlash chars, c ∈ part
  | [] => by simp [splitSlash]
  | d :: rest => by
    have ih := mem_splitSlash hc rest
    by_cases h : d = '/'
    · subst h
      simp [splitSlash_slash, hc, ih]
    · obtain ⟨part, parts, hrest, hcons⟩ := splitSlash_cons h rest
      rw [hrest] at ih
      simp [hcons, ih, or_assoc]

def pathParts (path : String) : List String := (splitSlash path.toList).map String.ofList

theorem slashParts_eq (path : String) : slashParts path = (pathParts path).filter (· ≠ "") := by
  have hempty (part : List Char) : (!part.isEmpty) = decide (String.ofList part ≠ "") := by
    cases part <;> simp
  unfold slashParts pathParts
  rw [List.filter_map]
  congr 1
  exact List.filter_congr fun part _ => hempty part

theorem slash_notMem_of_mem_splitSlash : ∀ {chars part : List Char}, part ∈ splitSlash chars → '/' ∉ part
  | [], part, h => by
    rw [splitSlash, List.mem_singleton] at h
    rw [h]; exact List.not_mem_nil
  | c :: rest, part, h => by
    by_cases hc : c = '/'
    · rw [hc, splitSlash_slash, List.mem_cons] at h
      cases h with
      | inl h => rw [h]; exact List.not_mem_nil
      | inr h => exact slash_notMem_of_mem_splitSlash h
    · obtain ⟨first, parts, hrest, hcons⟩ := splitSlash_cons hc rest
      rw [hcons, List.mem_cons] at h
      cases h with
      | inl h =>
        have hfirst : '/' ∉ first := slash_notMem_of_mem_splitSlash (by rw [hrest]; exact List.mem_cons_self)
        rw [h, List.mem_cons, not_or]
        exact ⟨Ne.symm hc, hfirst⟩
      | inr h => exact slash_notMem_of_mem_splitSlash (by rw [hrest]; exact List.mem_cons_of_mem _ h)

theorem splitSlash_of_notMem : ∀ {chars : List Char}, '/' ∉ chars → splitSlash chars = [chars]
  | [], _ => rfl
  | c :: rest, h => by
    rw [List.mem_cons, not_or] at h
    rw [splitSlash, if_neg (Ne.symm h.1), splitSlash_of_notMem h.2]

/-- Texts without slashes can be parts of a path. -/
def IsPart (text : String) : Prop := '/' ∉ text.toList

theorem isPart_of_mem_pathParts {path part : String} (h : part ∈ pathParts path) : IsPart part := by
  obtain ⟨chars, hchars, rfl⟩ := List.mem_map.mp h
  unfold IsPart
  rw [String.toList_ofList]
  exact slash_notMem_of_mem_splitSlash hchars

theorem pathParts_of_isPart {part : String} (h : IsPart part) : pathParts part = [part] := by
  unfold pathParts
  rw [splitSlash_of_notMem h, List.map_singleton, String.ofList_toList]

theorem pathParts_append (front back : String) :
    pathParts (front ++ "/" ++ back) = pathParts front ++ pathParts back := by
  have htext : (front ++ "/" ++ back).toList = front.toList ++ '/' :: back.toList := by simp
  unfold pathParts
  rw [htext, splitSlash_append, List.map_append]

theorem slashParts_append (front back : String) :
    slashParts (front ++ "/" ++ back) = slashParts front ++ slashParts back := by
  rw [slashParts_eq, slashParts_eq, slashParts_eq, pathParts_append, List.filter_append]

theorem pathParts_intercalate : ∀ {parts : List String}, parts ≠ [] →
    pathParts (String.intercalate "/" parts) = parts.flatMap pathParts
  | [], hne => absurd rfl hne
  | [part], _ => by rw [String.intercalate_singleton, List.flatMap_singleton]
  | first :: second :: rest, _ => by
    rw [String.intercalate_cons_cons, pathParts_append, pathParts_intercalate (List.cons_ne_nil second rest),
      ← List.flatMap_cons]

theorem flatMap_pathParts {parts : List String} (h : ∀ part ∈ parts, IsPart part) :
    parts.flatMap pathParts = parts := by
  rw [List.flatMap_congr fun part hmem => pathParts_of_isPart (h part hmem), List.flatMap_singleton']

theorem slashParts_intercalate (parts : List String) :
    slashParts (String.intercalate "/" parts) = parts.flatMap slashParts := by
  by_cases hnil : parts = []
  · rw [hnil]; rfl
  · rw [slashParts_eq, pathParts_intercalate hnil, List.filter_flatMap]
    exact List.flatMap_congr fun part _ => (slashParts_eq part).symm

/-! ## Steps -/

/-- Texts that are the only part of themselves. -/
structure IsStep (text : String) : Prop where
  nonempty : text ≠ ""
  isPart : IsPart text

theorem isStep_of_mem_slashParts {text part : String} (h : part ∈ slashParts text) : IsStep part := by
  rw [slashParts_eq, List.mem_filter, decide_eq_true_eq] at h
  exact ⟨h.2, isPart_of_mem_pathParts h.1⟩

theorem slashParts_of_isStep {text : String} (h : IsStep text) : slashParts text = [text] := by
  rw [slashParts_eq, pathParts_of_isPart h.isPart]
  simp [h.nonempty]

/-- Joining with slashes can be undone for steps, and for steps only. -/
theorem flatMap_slashParts_eq_self {parts : List String} :
    parts.flatMap slashParts = parts ↔ ∀ part ∈ parts, IsStep part := by
  constructor
  · intro h part hmem
    rw [← h] at hmem
    obtain ⟨text, -, hpart⟩ := List.mem_flatMap.mp hmem
    exact isStep_of_mem_slashParts hpart
  · intro h
    rw [List.flatMap_congr fun part hmem => slashParts_of_isStep (h part hmem), List.flatMap_singleton']

end TestMatrix
