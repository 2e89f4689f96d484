import TestMatrix.Proofs.Emission
import TestMatrix.Proofs.Expansion
import TestMatrix.Proofs.Written

/-!
# Exclusion keys

Selections of one key agree on every field that distinguishes selections: nothing is excluded by
mistake. Conversely selections that agree have one key, whatever the order of their fields. This ends
at the values: those that are equal but written differently, such as mappings with their keys in
another order, have different keys.
-/

namespace TestMatrix

/-! ## Entries in the order of their names -/

section
variable {α : Type}

theorem insertByName_perm (entry : String × α) : ∀ entries : List (String × α),
    (insertByName entry entries).Perm (entry :: entries)
  | [] => .refl _
  | other :: rest => by
    rw [insertByName]
    split
    · exact .refl _
    · exact ((insertByName_perm entry rest).cons other).trans (.swap ..)

theorem sortByName_perm : ∀ entries : List (String × α), (sortByName entries).Perm entries
  | [] => .refl _
  | entry :: rest => (insertByName_perm entry _).trans ((sortByName_perm rest).cons entry)

def InNameOrder (a b : String × α) : Prop := a.1 ≤ b.1

theorem insertByName_pairwise (entry : String × α) {entries : List (String × α)}
    (h : entries.Pairwise InNameOrder) : (insertByName entry entries).Pairwise InNameOrder := by
  induction entries with
  | nil => exact List.pairwise_singleton ..
  | cons other rest ih =>
    obtain ⟨hother, hrest⟩ := List.pairwise_cons.mp h
    rw [insertByName]
    by_cases hle : entry.1 ≤ other.1
    · rw [if_pos hle]
      refine List.pairwise_cons.mpr ⟨fun next hnext => ?_, h⟩
      rcases List.mem_cons.mp hnext with rfl | hnext
      · exact hle
      · exact String.le_trans hle (hother next hnext)
    · rw [if_neg hle]
      refine List.pairwise_cons.mpr ⟨fun next hnext => ?_, ih hrest⟩
      rcases List.mem_cons.mp ((insertByName_perm entry rest).subset hnext) with rfl | hnext
      · exact (String.le_total next.1 other.1).resolve_left hle
      · exact hother next hnext

theorem sortByName_pairwise : ∀ entries : List (String × α), (sortByName entries).Pairwise InNameOrder
  | [] => .nil
  | entry :: rest => insertByName_pairwise entry (sortByName_pairwise rest)

theorem lookup_insertByName (entry : String × α) (name : String) : ∀ entries : List (String × α),
    (insertByName entry entries).lookup name = (entry :: entries).lookup name
  | [] => rfl
  | other :: rest => by
    obtain ⟨key, value⟩ := entry
    obtain ⟨k, v⟩ := other
    rw [insertByName]
    by_cases hle : key ≤ k
    · rw [if_pos hle]
    · -- only past a smaller name, so equal names keep their order
      have hne : key ≠ k := by
        rintro rfl
        exact hle (String.le_refl key)
      rw [if_neg hle, lookup_cons_ite, lookup_insertByName, lookup_cons_ite, lookup_cons_ite, lookup_cons_ite]
      by_cases hk : name = k
      · rw [if_pos hk, if_neg (hk ▸ hne.symm), if_pos hk]
      · rw [if_neg hk, if_neg hk]

theorem lookup_sortByName (name : String) : ∀ entries : List (String × α),
    (sortByName entries).lookup name = entries.lookup name
  | [] => rfl
  | entry :: rest => by
    rw [sortByName, lookup_insertByName, lookup_cons_ite, lookup_sortByName name rest, lookup_cons_ite]

end

theorem sortByName_eq_of_perm {fs gs : Fields} (hnodup : (Fields.keys fs).Nodup) (h : fs.Perm gs) :
    sortByName fs = sortByName gs := by
  refine List.Perm.eq_of_pairwise ?_ (sortByName_pairwise fs) (sortByName_pairwise gs)
    ((sortByName_perm fs).trans (h.trans (sortByName_perm gs).symm))
  -- names are distinct, so their order leaves no choice
  rintro ⟨key, x⟩ ⟨key', y⟩ hx hy hle hge
  have hkey : key = key' := String.le_antisymm hle hge
  subst hkey
  have hx := Fields.lookup_of_mem hnodup ((sortByName_perm fs).subset hx)
  have hy := Fields.lookup_of_mem hnodup (h.symm.subset ((sortByName_perm gs).subset hy))
  rw [hx] at hy
  cases hy
  rfl

theorem lookup_of_perm {first second : Fields} (hnodup : (Fields.keys first).Nodup) (h : first.Perm second)
    (key : String) : first.lookup key = second.lookup key := by
  rw [← lookup_sortByName key first, sortByName_eq_of_perm hnodup h, lookup_sortByName]

/-! ## Fields that distinguish -/

namespace Fields

def distinguishing (fields : Fields) : Fields := fields.filter fun (field, _) => !isDescriptive field

/-- Whether the same fields distinguish both selections, with identical values. -/
def Agree (s t : Fields) : Prop := ∀ name, isDescriptive name = false → s.lookup name = t.lookup name

theorem lookup_distinguishing {name : String} (hname : isDescriptive name = false) (fields : Fields) :
    (distinguishing fields).lookup name = fields.lookup name := by
  have hkept : (!isDescriptive name) = true := by rw [hname]; rfl
  exact lookup_filter (p := fun field => !isDescriptive field) hkept fields

theorem mem_distinguishing {fields : Fields} (hnodup : (keys fields).Nodup) {name : String} {value : Json} :
    (name, value) ∈ distinguishing fields ↔ isDescriptive name = false ∧ fields.lookup name = some value := by
  rw [lookup_eq_some_iff hnodup, distinguishing, List.mem_filter, Bool.not_eq_true', and_comm]

theorem distinguishing_nodup {fields : Fields} (hnodup : (keys fields).Nodup) :
    (keys (distinguishing fields)).Nodup := hnodup.sublist (List.filter_sublist.map _)

end Fields

theorem exclusionKey_eq (s : Fields) : exclusionKey s = (Json.obj (sortByName s.distinguishing)).compact := rfl

theorem agree_of_exclusionKey {s t : Fields} (h : exclusionKey s = exclusionKey t) : s.Agree t := by
  rw [exclusionKey_eq, exclusionKey_eq] at h
  have hsorted := Json.obj.inj (Json.compact_injective h)
  intro name hname
  rw [← Fields.lookup_distinguishing hname s, ← Fields.lookup_distinguishing hname t,
    ← lookup_sortByName name s.distinguishing, hsorted, lookup_sortByName]

theorem exclusionKey_of_agree {s t : Fields} (hs : (Fields.keys s).Nodup) (ht : (Fields.keys t).Nodup)
    (h : s.Agree t) : exclusionKey s = exclusionKey t := by
  have hmem (entry : String × Json) : entry ∈ s.distinguishing ↔ entry ∈ t.distinguishing := by
    obtain ⟨name, value⟩ := entry
    rw [Fields.mem_distinguishing hs, Fields.mem_distinguishing ht]
    exact and_congr_right fun hname => by rw [h name hname]
  have hperm : s.distinguishing.Perm t.distinguishing :=
    (List.perm_ext_iff_of_nodup (.of_map _ (Fields.distinguishing_nodup hs))
      (.of_map _ (Fields.distinguishing_nodup ht))).mpr hmem
  rw [exclusionKey_eq, exclusionKey_eq, sortByName_eq_of_perm (Fields.distinguishing_nodup hs) hperm]

/-! ## Values equal up to the order of keys -/

/-- Values that equal no value but themselves: without a zero among the doubles and without a mapping of
two fields. -/
inductive Json.Rigid : Json → Prop
  | null : Rigid .null
  | bool (value : Bool) : Rigid (.bool value)
  | num {value : Number} (h : ∀ x, value = .double x → x.isZero = false) : Rigid (.num value)
  | str (text : String) : Rigid (.str text)
  | arr {items : List Json} (h : ∀ item ∈ items, Rigid item) : Rigid (.arr items)
  | empty : Rigid (.obj [])
  | single {key : String} {value : Json} (h : Rigid value) : Rigid (.obj [(key, value)])

theorem Number.eq_of_same {a b : Number} (hzero : ∀ x, a = .double x → x.isZero = false)
    (h : a.same b = true) : a = b := by
  cases a with
  | int m =>
    cases b with
    | int n => rw [eq_of_beq h]
    | double y => cases h
  | double x =>
    cases b with
    | int n => cases h
    | double y =>
      rw [same, Double.same, hzero x rfl, Bool.false_and, Bool.or_false] at h
      rw [eq_of_beq h]

theorem Json.Rigid.eq_of_same {a b : Json} (ha : a.Rigid) (h : a.same b = true) : a = b := by
  induction ha generalizing b with
  | null =>
    cases b with
    | null => rfl
    | _ => cases h
  | bool value =>
    cases b with
    | bool other => rw [eq_of_beq h]
    | _ => cases h
  | num hzero =>
    cases b with
    | num other => rw [Number.eq_of_same hzero h]
    | _ => cases h
  | str text =>
    cases b with
    | str other => rw [eq_of_beq h]
    | _ => cases h
  | arr _ ih =>
    cases b with
    | arr others =>
      rw [Json.same, Json.sameItems_iff, List.forall₂_iff_zip] at h
      have heq : List.Forall₂ Eq _ others :=
        List.forall₂_iff_zip.mpr ⟨h.1, fun hmem => ih _ (List.of_mem_zip hmem).1 (h.2 hmem)⟩
      rw [List.forall₂_eq_eq_eq] at heq
      rw [heq]
    | _ => cases h
  | empty =>
    cases b with
    | obj fields =>
      rw [Json.same, Bool.and_eq_true] at h
      rw [List.length_eq_zero_iff.mp (eq_of_beq h.1).symm]
    | _ => cases h
  | single _ ih =>
    cases b with
    | obj fields =>
      rw [Json.same, Bool.and_eq_true] at h
      obtain ⟨⟨key, value⟩, rfl⟩ := List.length_eq_one_iff.mp (eq_of_beq h.1).symm
      obtain ⟨other, hlookup, hsame⟩ := (Json.sameFields_iff _ _).mp h.2 _ _ (List.mem_singleton.mpr rfl)
      rw [lookup_cons_ite] at hlookup
      split at hlookup
      · next hkey =>
        cases hlookup
        rw [hkey, ih hsame]
      · cases hlookup
    | _ => cases h

/-- Whether the same fields distinguish both selections, with values that are equal up to the order of keys. -/
def Fields.Alike (s t : Fields) : Prop :=
  ∀ name, isDescriptive name = false → Option.Rel (fun x y => x.same y = true) (s.lookup name) (t.lookup name)

theorem Fields.Alike.agree {s t : Fields} (hs : (keys s).Nodup) (h : s.Alike t)
    (hrigid : ∀ entry ∈ s.distinguishing, entry.2.Rigid) : s.Agree t := by
  intro name hname
  have hrel := h name hname
  cases hx : s.lookup name with
  | none =>
    rw [hx] at hrel
    cases ht : t.lookup name with
    | none => rfl
    | some y => rw [ht] at hrel; cases hrel
  | some x =>
    rw [hx] at hrel
    have hvalue : x.Rigid := hrigid (name, x) ((mem_distinguishing hs).mpr ⟨hname, hx⟩)
    cases ht : t.lookup name with
    | none => rw [ht] at hrel; cases hrel
    | some y =>
      rw [ht] at hrel
      cases hrel with
      | some hsame => rw [hvalue.eq_of_same hsame]

/-! ## What a run excludes -/

namespace Generate

section
variable (schema : Schema) (read : String → Except RunFault String)

/-- Whether a suppressing pattern has a selection that agrees with this one. -/
def IsSuppressed (found : List Pattern) (selection : Fields) : Prop :=
  ∃ pattern ∈ found, ∃ leaf, leafWith? schema .suppress pattern = some leaf ∧
    ∃ excluded ∈ pattern.selections, excluded.Agree selection

theorem mem_excludedKeys {found : List Pattern} {key : String} :
    key ∈ excludedKeys schema found ↔
      ∃ pattern ∈ found, ∃ leaf, leafWith? schema .suppress pattern = some leaf ∧
        ∃ excluded ∈ pattern.selections, exclusionKey excluded = key := by
  rw [excludedKeys, List.mem_toFinset, List.mem_flatMap]
  refine exists_congr fun pattern => and_congr_right fun _ => ?_
  cases leafWith? schema .suppress pattern with
  | none => simp
  | some leaf => simp [selections_eq_product]

/-- After the first pass a selection is excluded when a suppressing pattern has one of its key. -/
theorem excluded_of_key (found : List Pattern) (accepted : Tally) : ∃ excluded : Exclusions,
    Script.trace read (exclusions schema .empty found) accepted = ⟨[], .ok excluded⟩ ∧
    ∀ selection, excluded.contains selection = true ↔ exclusionKey selection ∈ excludedKeys schema found := by
  obtain ⟨last, hends, hlast, -⟩ := exclusions_of_found schema found
  exact ⟨last, hends.trace_eq read accepted, fun selection => by rw [Exclusions.contains_iff, hlast]⟩

theorem nodup_of_mem_selections {pattern : Pattern} {selection : Fields} (h : selection ∈ pattern.selections) :
    (Fields.keys selection).Nodup := by
  obtain ⟨entries, -, rfl⟩ := Odometer.draws_of_mem_selections h
  exact Fields.nodup_ofEntries entries

theorem selection_mem_of_candidate {found : List Pattern} {candidate : Candidate}
    (h : candidate ∈ candidatesOf schema found) : candidate.selection ∈ candidate.pattern.selections := by
  obtain ⟨pattern, -, hcandidate⟩ := List.mem_flatMap.mp h
  unfold candidatesAt at hcandidate
  split at hcandidate
  · cases hcandidate
  · obtain ⟨selection, hselection, rfl⟩ := List.mem_map.mp hcandidate
    rwa [selections_eq_product]

end

/-- The candidates whose selections the first pass has not excluded, each with its number among all. -/
def keptBy (excluded : Exclusions) (list : List Candidate) : List (Candidate × Nat) :=
  list.zipIdx.filter fun entry => !excluded.contains entry.1.selection

section
variable {schema : Schema} {found : List Pattern} {excluded : Exclusions}
  (hcontains : ∀ selection, excluded.contains selection = true ↔
    exclusionKey selection ∈ excludedKeys schema found)
include hcontains

theorem contains_eq_isExcluded (candidate : Candidate) :
    excluded.contains candidate.selection = isExcluded (excludedKeys schema found) candidate := by
  rw [Bool.eq_iff_iff, hcontains, isExcluded, decide_eq_true_eq]

theorem keptBy_eq_remaining (list : List Candidate) :
    keptBy excluded list = remaining (excludedKeys schema found) 0 list :=
  List.filter_congr fun entry _ => congrArg (!·) (contains_eq_isExcluded hcontains entry.1)

theorem suppressed_eq (options : Options) (tally : Tally) : (reportOf schema options found tally).suppressed =
    (candidatesOf schema found).countP fun candidate => excluded.contains candidate.selection :=
  List.countP_congr fun candidate _ => by rw [contains_eq_isExcluded hcontains]

/-- What is excluded agrees with a selection of a suppressing pattern. -/
theorem isSuppressed_of_contains {selection : Fields} (h : excluded.contains selection = true) :
    IsSuppressed schema found selection := by
  obtain ⟨pattern, hpattern, leaf, hleaf, other, hother, hkey⟩ :=
    (mem_excludedKeys schema).mp ((hcontains selection).mp h)
  exact ⟨pattern, hpattern, leaf, hleaf, other, hother, agree_of_exclusionKey hkey⟩

theorem mem_keptBy_of_not_isSuppressed {list : List Candidate} {entry : Candidate × Nat} (hmem : entry ∈ list.zipIdx)
    (h : ¬IsSuppressed schema found entry.1.selection) : entry ∈ keptBy excluded list := by
  refine List.mem_filter.mpr ⟨hmem, ?_⟩
  rw [Bool.not_eq_true', Bool.eq_false_iff]
  exact mt (isSuppressed_of_contains hcontains) h

end

/-- **No false suppression.** Selections of one key agree on the fields that distinguish them, and what the
first pass excludes agrees with a selection of a suppressing pattern. With any templates and any
destination, a run renders the numbered candidates that are kept, in order and up to the first fault, and
none is missing among them whose selection agrees with no selection of a suppressing pattern. -/
theorem suppresses_only_agreeing :
    (∀ s t : Fields, exclusionKey s = exclusionKey t → s.Agree t) ∧
    ∀ schema read found, ∃ excluded : Exclusions,
      Script.trace read (exclusions schema .empty found) .zero = ⟨[], .ok excluded⟩ ∧
      (∀ selection, excluded.contains selection = true → IsSuppressed schema found selection) ∧
      (∀ entry ∈ (candidatesOf schema found).zipIdx, ¬IsSuppressed schema found entry.1.selection →
        entry ∈ keptBy excluded (candidatesOf schema found)) ∧
      ∀ options spec, Pattern.ofSpec schema spec = .ok found →
        (∀ (m : Type → Type) [Monad m] [LawfulMonad m] (fetch : Source m) (deliver : Sink m) tally,
          Script.play (Host.unlogged fetch deliver) (run schema options spec) tally =
            Script.play (Host.unlogged fetch deliver)
              (renderAndReport schema options found (keptBy excluded (candidatesOf schema found))) tally) ∧
        runTrace schema options read spec =
          ⟨(emit options read (keptBy excluded (candidatesOf schema found))).artifacts,
            (emit options read (keptBy excluded (candidatesOf schema found))).value.map fun () =>
              reportOf schema options found⟩ ∧
        ∀ tally, (reportOf schema options found tally).suppressed =
          (candidatesOf schema found).countP fun candidate => excluded.contains candidate.selection := by
  refine ⟨fun s t => agree_of_exclusionKey, fun schema read found => ?_⟩
  obtain ⟨excluded, htrace, hcontains⟩ := excluded_of_key schema read found .zero
  refine ⟨excluded, htrace, fun selection => isSuppressed_of_contains hcontains,
    fun entry hmem => mem_keptBy_of_not_isSuppressed hcontains hmem, fun options spec hfound => ?_⟩
  rw [keptBy_eq_remaining hcontains]
  exact ⟨fun m _ _ fetch deliver tally => same_run schema options hfound tally,
    runTrace_found schema options read hfound, suppressed_eq hcontains options⟩

def generatedPattern : Pattern :=
  ⟨[.ofKey "cases", .index 0], [.ofKey "cases", .wildcard], [], [⟨"size", [.str "a", .str "b", .str "c"]⟩]⟩

def suppressedPattern : Pattern :=
  ⟨[.ofKey "skips", .index 0], [.ofKey "skips", .wildcard], [], [⟨"size", [.str "b"]⟩]⟩

def skippingPatterns : List Pattern := [generatedPattern, suppressedPattern]

def plainSelection : Fields := [("size", .str "b")]

def namedSelection : Fields := [("name", .str "middle"), ("size", .str "b")]

/-- A name does not tell selections apart. Of three candidates the second is a selection of the suppressing
pattern, and the others are kept under their numbers. -/
theorem named_agrees : exclusionKey namedSelection = exclusionKey plainSelection ∧
    namedSelection.Agree plainSelection ∧
    Pattern.ofSpec skippingSchema skippingSpec = .ok skippingPatterns ∧ ∃ excluded : Exclusions,
      Script.trace (fun _ => .ok "") (exclusions skippingSchema .empty skippingPatterns) .zero =
        ⟨[], .ok excluded⟩ ∧
      excluded.contains namedSelection = true ∧ IsSuppressed skippingSchema skippingPatterns namedSelection ∧
      (keptBy excluded (candidatesOf skippingSchema skippingPatterns)).map (·.2) = [0, 2] ∧
      Script.play (Host.unlogged (fun _ => pure (.ok "")) Sink.memory) (run skippingSchema .default skippingSpec)
          .zero [] =
        Script.play (Host.unlogged (fun _ => pure (.ok "")) Sink.memory)
          (renderAndReport skippingSchema .default skippingPatterns
            (keptBy excluded (candidatesOf skippingSchema skippingPatterns))) .zero [] := by
  have hkeys : exclusionKey namedSelection = exclusionKey plainSelection := rfl
  have hfound : Pattern.ofSpec skippingSchema skippingSpec = .ok skippingPatterns := rfl
  have hcomputed : Script.trace (fun _ => .ok "") (exclusions skippingSchema .empty skippingPatterns) .zero =
      ⟨[], .ok ⟨[exclusionKey plainSelection]⟩⟩ := rfl
  obtain ⟨hagree, hruns⟩ := suppresses_only_agreeing
  obtain ⟨excluded, htrace, honly, -, hrun⟩ := hruns skippingSchema (fun _ => .ok "") skippingPatterns
  have hexcluded : excluded = ⟨[exclusionKey plainSelection]⟩ := by
    rw [htrace] at hcomputed
    cases hcomputed
    rfl
  have hcontains : excluded.contains namedSelection = true := by
    rw [hexcluded]
    rfl
  have hkept : (keptBy excluded (candidatesOf skippingSchema skippingPatterns)).map (·.2) = [0, 2] := by
    rw [hexcluded]
    rfl
  exact ⟨hkeys, hagree _ _ hkeys, hfound, excluded, htrace, hcontains, honly _ hcontains, hkept,
    congrFun ((hrun .default _ hfound).1 _ _ Sink.memory .zero) []⟩

/-- A candidate is excluded after the first pass exactly when a suppressing pattern has a selection that agrees
with it. -/
theorem excluded_iff_isSuppressed {schema : Schema} {found : List Pattern} {excluded : Exclusions}
    (hcontains : ∀ selection, excluded.contains selection = true ↔
      exclusionKey selection ∈ excludedKeys schema found) {candidate : Candidate}
    (hcandidate : candidate ∈ candidatesOf schema found) :
    excluded.contains candidate.selection = true ↔ IsSuppressed schema found candidate.selection := by
  have hnodup := nodup_of_mem_selections (selection_mem_of_candidate schema hcandidate)
  rw [hcontains, mem_excludedKeys]
  constructor
  · rintro ⟨pattern, hpattern, leaf, hleaf, other, hother, hkey⟩
    exact ⟨pattern, hpattern, leaf, hleaf, other, hother, agree_of_exclusionKey hkey⟩
  · rintro ⟨pattern, hpattern, leaf, hleaf, other, hother, hagree⟩
    exact ⟨pattern, hpattern, leaf, hleaf, other, hother,
      exclusionKey_of_agree (nodup_of_mem_selections hother) hnodup hagree⟩

/-- **Canonical keys.** Selections have one key exactly when they agree, whatever the order of their fields;
equal ones with rigid values do. So every candidate that agrees with a selection of a suppressing
pattern is excluded. -/
theorem suppresses_agreeing (s t : Fields) (hs : (Fields.keys s).Nodup) (ht : (Fields.keys t).Nodup) :
    (exclusionKey s = exclusionKey t ↔ s.Agree t) ∧
    (s.Alike t → (∀ entry ∈ s.distinguishing, entry.2.Rigid) → exclusionKey s = exclusionKey t) ∧
    ∀ schema read found, ∃ excluded : Exclusions,
      Script.trace read (exclusions schema .empty found) .zero = ⟨[], .ok excluded⟩ ∧
      ∀ candidate ∈ candidatesOf schema found,
        excluded.contains candidate.selection = true ↔ IsSuppressed schema found candidate.selection := by
  refine ⟨⟨agree_of_exclusionKey, exclusionKey_of_agree hs ht⟩, fun h hrigid =>
    exclusionKey_of_agree hs ht (h.agree hs hrigid), fun schema read found => ?_⟩
  obtain ⟨excluded, htrace, hcontains⟩ := excluded_of_key schema read found .zero
  exact ⟨excluded, htrace, fun candidate hcandidate => excluded_iff_isSuppressed hcontains hcandidate⟩

def shuffledSelection : Fields := [("size", .str "b"), ("name", .str "middle"), ("flags", .arr [.bool true])]

def orderedSelection : Fields := [("flags", .arr [.bool true]), ("size", .str "b")]

/-- The order of fields does not count, and the candidate of the suppressed selection is excluded. -/
theorem shuffled_keys_equal : shuffledSelection.Alike orderedSelection ∧
    exclusionKey shuffledSelection = exclusionKey orderedSelection ∧ ∃ excluded : Exclusions,
      Script.trace (fun _ => .ok "") (exclusions skippingSchema .empty skippingPatterns) .zero =
        ⟨[], .ok excluded⟩ ∧
      ∃ candidate ∈ candidatesOf skippingSchema skippingPatterns, candidate.selection = plainSelection ∧
        excluded.contains candidate.selection = true := by
  have halike : shuffledSelection.Alike orderedSelection := by
    intro name hname
    unfold shuffledSelection orderedSelection
    simp only [lookup_cons_ite, List.lookup_nil]
    by_cases hsize : name = "size"
    · subst hsize; exact .some (by decide)
    · by_cases hdescriptive : name = "name"
      · subst hdescriptive; cases hname
      · by_cases hflags : name = "flags"
        · subst hflags; exact .some (by decide)
        · simp only [hsize, hdescriptive, hflags, if_false]
          exact .none
  have hrigid : ∀ entry ∈ shuffledSelection.distinguishing, entry.2.Rigid := by
    have hfields : shuffledSelection.distinguishing = [("size", .str "b"), ("flags", .arr [.bool true])] := rfl
    rw [hfields, List.forall_mem_cons, List.forall_mem_singleton]
    exact ⟨.str "b", .arr fun item hitem => List.mem_singleton.mp hitem ▸ .bool true⟩
  obtain ⟨-, hkeys, hruns⟩ := suppresses_agreeing shuffledSelection orderedSelection (by decide) (by decide)
  obtain ⟨excluded, htrace, hcandidates⟩ := hruns skippingSchema (fun _ => .ok "") skippingPatterns
  have hselections : suppressedPattern.selections = [plainSelection] := rfl
  have hsuppressed : IsSuppressed skippingSchema skippingPatterns plainSelection :=
    ⟨suppressedPattern, by simp [skippingPatterns], _, rfl, plainSelection, by simp [hselections], fun _ _ => rfl⟩
  have hsecond : (candidatesOf skippingSchema skippingPatterns)[1]? =
      some ⟨generatedPattern, _, plainSelection⟩ := rfl
  have hcandidate := List.mem_of_getElem? hsecond
  exact ⟨halike, hkeys halike hrigid, excluded, htrace, _, hcandidate, rfl,
    (hcandidates _ hcandidate).mpr hsuppressed⟩

def boxedSelection : Fields := [("size", .obj [("w", .num (.int 1)), ("h", .num (.int 2))])]

def turnedSelection : Fields := [("size", .obj [("h", .num (.int 2)), ("w", .num (.int 1))])]

/-- The keys of a mapping inside a field are not sorted, so an equal selection is not excluded. -/
theorem turned_not_excluded : boxedSelection.Alike turnedSelection ∧
    exclusionKey boxedSelection ≠ exclusionKey turnedSelection ∧
    (Exclusions.empty.insert boxedSelection).2.contains turnedSelection = false := by
  have halike : boxedSelection.Alike turnedSelection := by
    intro name _
    unfold boxedSelection turnedSelection
    rw [lookup_cons_ite, lookup_cons_ite]
    by_cases hname : name = "size"
    · rw [if_pos hname, if_pos hname]
      exact .some (by decide)
    · rw [if_neg hname, if_neg hname]
      exact .none
  have hkeys : exclusionKey boxedSelection ≠ exclusionKey turnedSelection := by
    intro h
    have hsize := agree_of_exclusionKey h "size" rfl
    simp [boxedSelection, turnedSelection] at hsize
  refine ⟨halike, hkeys, ?_⟩
  rw [Bool.eq_false_iff, ne_eq, Exclusions.contains_iff, Exclusions.keySet_insert]
  simp [Exclusions.keySet, Exclusions.empty, Ne.symm hkeys]

end Generate

end TestMatrix
