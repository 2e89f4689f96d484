import TestMatrix.Machine
import TestMatrix.Proofs.Emission

/-!
# More exclusions, fewer artifacts

Two runs whose generating patterns are the same have the same candidates under the same numbers, wherever
the patterns stand. What they exclude decides which of them are rendered and nothing else: a run
that excludes more hands over the artifacts of the other, less those of the candidates that it
leaves out. Whether all of them are accepted is up to the destination, which may want an artifact that is
left out before one that is not.
-/

namespace TestMatrix

/-! ## Candidates without their places -/

def Pattern.unplaced (pattern : Pattern) : Pattern := { pattern with path := .root }

namespace Generate

/-- What of the patterns makes candidates: the leaf paths, dimensions and ancestors of those that
generate, in order. -/
def generating (schema : Schema) (found : List Pattern) : List Pattern :=
  (found.filter fun pattern => (leafWith? schema .generate pattern).isSome).map Pattern.unplaced

def Candidate.unplaced (candidate : Candidate) : Candidate :=
  { candidate with pattern := candidate.pattern.unplaced }

section
variable (schema : Schema) (options : Options) (read : String → Except RunFault String)

theorem candidatesAt_unplaced (pattern : Pattern) :
    (candidatesAt schema pattern).map Candidate.unplaced = candidatesAt schema pattern.unplaced := by
  have hleaf : leafWith? schema .generate pattern.unplaced = leafWith? schema .generate pattern := rfl
  unfold candidatesAt
  rw [hleaf]
  cases leafWith? schema .generate pattern with
  | none => rfl
  | some leaf => rw [List.map_map]; rfl

theorem candidatesOf_generating : ∀ found : List Pattern,
    candidatesOf schema (generating schema found) = (candidatesOf schema found).map Candidate.unplaced
  | [] => rfl
  | pattern :: rest => by
    have ih := candidatesOf_generating rest
    unfold generating candidatesOf at ih ⊢
    rw [List.filter_cons, List.flatMap_cons, List.map_append, ← ih]
    cases hleaf : leafWith? schema .generate pattern with
    | none => simp [candidatesAt, hleaf]
    | some leaf => simp [candidatesAt_unplaced]

theorem emit_unplaced (excluded : Finset String) (list : List Candidate) :
    emit options read (remaining excluded 0 (list.map Candidate.unplaced)) =
      emit options read (remaining excluded 0 list) := by
  unfold emit remaining
  rw [List.zipIdx_map, List.filter_map, List.map_map]
  rfl

theorem countP_unplaced (excluded : Finset String) (list : List Candidate) :
    (list.map Candidate.unplaced).countP (isExcluded excluded) = list.countP (isExcluded excluded) := by
  rw [List.countP_map]
  rfl

/-! ## What is left of the candidates -/

/-- The artifacts of a numbered candidate. -/
def artifactsOf (entry : Candidate × Nat) : List Artifact := (entry.1.trace options read entry.2).artifacts

theorem remaining_of_subset {excluded more : Finset String} (hsub : excluded ⊆ more) (list : List Candidate) :
    remaining more 0 list = (remaining excluded 0 list).filter fun entry => !isExcluded more entry.1 := by
  unfold remaining
  rw [List.filter_filter]
  refine List.filter_congr fun entry _ => ?_
  by_cases hmore : isExcluded more entry.1 = true
  · simp [hmore]
  · have hless : isExcluded excluded entry.1 = false := by
      rw [isExcluded, decide_eq_false_iff_not]
      intro hmem
      exact hmore (decide_eq_true (hsub hmem))
    simp [hmore, hless]

variable {schema options read}

theorem emit_of_ok {entries : List (Candidate × Nat)}
    (h : ∀ entry ∈ entries, (entry.1.trace options read entry.2).value = .ok ()) :
    emit options read entries = ⟨entries.flatMap (artifactsOf options read), .ok ()⟩ := by
  rw [emit, Trace.sequence_of_ok (List.forall_mem_map.mpr h), List.flatMap_map]
  rfl

theorem ok_of_emit {entries : List (Candidate × Nat)} (h : (emit options read entries).value = .ok ()) :
    ∀ entry ∈ entries, (entry.1.trace options read entry.2).value = .ok () :=
  List.forall_mem_map.mp (Trace.ok_of_sequence h)

theorem emission_eq_of_generating {found₁ found₂ : List Pattern}
    (hsame : generating schema found₁ = generating schema found₂) (excluded : Finset String) :
    emit options read (remaining excluded 0 (candidatesOf schema found₁)) =
      emit options read (remaining excluded 0 (candidatesOf schema found₂)) := by
  rw [← emit_unplaced, ← candidatesOf_generating, hsame, candidatesOf_generating, emit_unplaced]

theorem reportOf_eq_of_generating {found₁ found₂ : List Pattern}
    (hsame : generating schema found₁ = generating schema found₂)
    (hkeys : excludedKeys schema found₁ = excludedKeys schema found₂) :
    reportOf schema options found₁ = reportOf schema options found₂ := by
  have hunplaced : (candidatesOf schema found₁).map Candidate.unplaced =
      (candidatesOf schema found₂).map Candidate.unplaced := by
    rw [← candidatesOf_generating, hsame, candidatesOf_generating]
  have hcandidates : (candidatesOf schema found₁).length = (candidatesOf schema found₂).length := by
    have := congrArg List.length hunplaced
    rwa [List.length_map, List.length_map] at this
  have hsuppressed : (candidatesOf schema found₁).countP (isExcluded (excludedKeys schema found₂)) =
      (candidatesOf schema found₂).countP (isExcluded (excludedKeys schema found₂)) := by
    rw [← countP_unplaced, hunplaced, countP_unplaced]
  funext tally
  unfold reportOf
  rw [← candidatesOf_length, ← candidatesOf_length, hcandidates, hkeys, hsuppressed]

/-! ## Two runs -/

theorem emission_monotone {found₁ found₂ : List Pattern}
    (hsame : generating schema found₁ = generating schema found₂)
    (hsub : excludedKeys schema found₁ ⊆ excludedKeys schema found₂)
    (hok : (emission schema options read found₁).value = .ok ()) :
    let left := remaining (excludedKeys schema found₁) 0 (candidatesOf schema found₁)
    emission schema options read found₁ = ⟨left.flatMap (artifactsOf options read), .ok ()⟩ ∧
    emission schema options read found₂ =
      ⟨(left.filter fun entry => !isExcluded (excludedKeys schema found₂) entry.1).flatMap
        (artifactsOf options read), .ok ()⟩ := by
  intro left
  have hall : ∀ entry ∈ left, (entry.1.trace options read entry.2).value = .ok () := ok_of_emit hok
  constructor
  · exact emit_of_ok hall
  · unfold emission
    rw [← emission_eq_of_generating hsame, remaining_of_subset hsub]
    exact emit_of_ok fun entry hentry => hall entry (List.mem_of_mem_filter hentry)

theorem runTrace_eq_of_generating {spec₁ spec₂ : Json} {found₁ found₂ : List Pattern}
    (h₁ : Pattern.ofSpec schema spec₁ = .ok found₁) (h₂ : Pattern.ofSpec schema spec₂ = .ok found₂)
    (hsame : generating schema found₁ = generating schema found₂)
    (hkeys : excludedKeys schema found₁ = excludedKeys schema found₂) :
    runTrace schema options read spec₁ = runTrace schema options read spec₂ := by
  have hemission : emission schema options read found₁ = emission schema options read found₂ := by
    unfold emission
    rw [hkeys, emission_eq_of_generating hsame]
  rw [runTrace_found _ _ _ h₁, runTrace_found _ _ _ h₂, hemission, reportOf_eq_of_generating hsame hkeys]

theorem reported_of_unrefused {σ : Type} {deliver : Sink (StateM σ)} {artifacts : List Artifact} {s : σ}
    (toReport : Tally → Report) (h : (handOver deliver artifacts s).1.2 = none) :
    ∃ tally, Trace.reported deliver ⟨artifacts, .ok toReport⟩ s =
      ((tally, .ok (toReport tally)), Sink.after deliver artifacts s) := by
  refine ⟨(Trace.reported deliver ⟨artifacts, .ok toReport⟩ s).1.1, Prod.ext (Prod.ext rfl ?_) (after_of_handOver h).2⟩
  rw [Trace.reported_value, h]
  rfl

/-- A run that ends well has rendered all its candidates, and its artifacts were accepted. -/
theorem accepted_of_ok {σ : Type} {deliver : Sink (StateM σ)} {spec : Json} {found : List Pattern} {s s' : σ}
    {tally : Tally} {report : Report} (hfound : Pattern.ofSpec schema spec = .ok found)
    (hrun : (runTrace schema options read spec).reported deliver s = ((tally, .ok report), s')) :
    (emission schema options read found).value = .ok () ∧
      (handOver deliver (emission schema options read found).artifacts s).1.2 = none ∧
      s' = Sink.after deliver (emission schema options read found).artifacts s := by
  have hvalue := congrArg (·.1.2) hrun
  have hstate : (handOver deliver (runTrace schema options read spec).artifacts s).2 = s' := congrArg (·.2) hrun
  dsimp only at hvalue
  rw [Trace.reported_value] at hvalue
  rw [runTrace_found _ _ _ hfound] at hvalue hstate
  dsimp only at hvalue hstate
  obtain ⟨toReport, houtcome, -⟩ := Except.map_eq_ok.mp hvalue
  cases hrefusal : (handOver deliver (emission schema options read found).artifacts s).1.2 with
  | some fault =>
    rw [hrefusal] at houtcome
    cases houtcome
  | none =>
    rw [hrefusal] at houtcome
    obtain ⟨u, hok, -⟩ := Except.map_eq_ok.mp houtcome
    exact ⟨hok, rfl, hstate.symm.trans (after_of_handOver hrefusal).2⟩

end

/-- **Exclusion.** Take two specifications with the same generating patterns, of which the second excludes
all that the first does, and let the run on the first end well. Then the run on the second hands over the
artifacts of the same candidates under the same numbers, less those that it excludes, up to the first
that is refused; it ends well too where the destination accepts an artifact whatever came before. If they
exclude the same, the runs are the same on every destination. -/
theorem exclusion_monotone (schema : Schema) (options : Options)
    (read : String → List String → Except RunFault String) {spec₁ spec₂ : Json} {found₁ found₂ : List Pattern}
    (h₁ : Pattern.ofSpec schema spec₁ = .ok found₁) (h₂ : Pattern.ofSpec schema spec₂ = .ok found₂)
    (hsame : generating schema found₁ = generating schema found₂)
    (hsub : excludedKeys schema found₁ ⊆ excludedKeys schema found₂) :
    (∀ (σ : Type) (deliver : Sink (StateM σ)) s tally₁ report₁ s₁,
      runOn schema options read deliver spec₁ s = ((tally₁, .ok report₁), s₁) →
      let left := remaining (excludedKeys schema found₁) 0 (candidatesOf schema found₁)
      let fewer := left.filter fun entry => !isExcluded (excludedKeys schema found₂) entry.1
      let made := artifactsOf options (read · options.templateDirs)
      s₁ = Sink.after deliver (left.flatMap made) s ∧
      (∀ (m : Type → Type) [Monad m] [LawfulMonad m] (other : Sink m), runOn schema options read other spec₂ =
        Trace.reported other ⟨fewer.flatMap made, .ok (reportOf schema options found₂)⟩) ∧
      (Sink.IsSteadfast deliver → ∀ s', ∃ tally₂ report₂, runOn schema options read deliver spec₂ s' =
        ((tally₂, .ok report₂), Sink.after deliver (fewer.flatMap made) s'))) ∧
    (excludedKeys schema found₁ = excludedKeys schema found₂ →
      ∀ (m : Type → Type) [Monad m] [LawfulMonad m] (deliver : Sink m),
        runOn schema options read deliver spec₁ = runOn schema options read deliver spec₂) := by
  constructor
  · intro σ deliver s tally₁ report₁ s₁ hrun left fewer made
    rw [runOn_eq] at hrun
    obtain ⟨hok, hunrefused, hs₁⟩ := accepted_of_ok h₁ hrun
    obtain ⟨hfirst, hsecond⟩ := emission_monotone hsame hsub hok
    rw [hfirst] at hs₁ hunrefused
    have hrun₂ (m : Type → Type) [Monad m] [LawfulMonad m] (other : Sink m) :
        runOn schema options read other spec₂ =
          Trace.reported other ⟨fewer.flatMap made, .ok (reportOf schema options found₂)⟩ := by
      rw [runOn_eq, runTrace_found _ _ _ h₂, hsecond]
      rfl
    refine ⟨hs₁, hrun₂, fun hsteadfast s' => ?_⟩
    have haccepted : ∀ artifact ∈ fewer.flatMap made, ∀ s, ∃ bytes, (deliver artifact s).1 = .ok bytes := by
      intro artifact hmem s
      obtain ⟨entry, hentry, hartifact⟩ := List.mem_flatMap.mp hmem
      obtain ⟨bytes, before, hbefore⟩ := accepted_of_handOver hunrefused artifact
        (List.mem_flatMap.mpr ⟨entry, List.mem_of_mem_filter hentry, hartifact⟩)
      exact hsteadfast artifact before s ⟨bytes, hbefore⟩
    obtain ⟨tally, hreported⟩ := reported_of_unrefused (reportOf schema options found₂)
      (unrefused_of_accepted haccepted s')
    exact ⟨tally, _, (congrFun (hrun₂ _ deliver) s').trans hreported⟩
  · intro hkeys m _ _ deliver
    rw [runOn_eq, runOn_eq, runTrace_eq_of_generating h₁ h₂ hsame hkeys]

/-- The specification that skips a size, with nothing to skip. -/
def fullSpec : Json := .obj [
  ("skips", .arr []), ("cases", .arr [.obj [("size", .arr [.str "a", .str "b", .str "c"])]])]

/-- Excluding the second of three candidates deletes its artifact and no other. -/
theorem skipping_deletes_one : ∃ found₁ found₂ tally report,
    Pattern.ofSpec skippingSchema fullSpec = .ok found₁ ∧
    Pattern.ofSpec skippingSchema skippingSpec = .ok found₂ ∧
    generating skippingSchema found₁ = generating skippingSchema found₂ ∧
    excludedKeys skippingSchema found₁ ⊆ excludedKeys skippingSchema found₂ ∧
    runOn skippingSchema .default (fun _ _ => .ok "") Sink.memory fullSpec [] =
      ((⟨3, 3⟩, .ok ⟨"release", 3, 0, 3, 3, 0⟩), [⟨"0", "a"⟩, ⟨"1", "b"⟩, ⟨"2", "c"⟩]) ∧
    Sink.IsSteadfast Sink.memory ∧
    runOn skippingSchema .default (fun _ _ => .ok "") Sink.memory skippingSpec [] =
      ((tally, .ok report), [⟨"0", "a"⟩, ⟨"2", "c"⟩]) := by
  have h₁ : Pattern.ofSpec skippingSchema fullSpec = .ok _ := rfl
  have h₂ : Pattern.ofSpec skippingSchema skippingSpec = .ok _ := rfl
  have hrun : runOn skippingSchema .default (fun _ _ => .ok "") Sink.memory fullSpec [] =
      ((⟨3, 3⟩, .ok ⟨"release", 3, 0, 3, 3, 0⟩), [⟨"0", "a"⟩, ⟨"1", "b"⟩, ⟨"2", "c"⟩]) := by
    rw [runOn_eq]
    rfl
  have hsteadfast : Sink.IsSteadfast Sink.memory := fun artifact _ _ _ => ⟨artifact.size, rfl⟩
  obtain ⟨hruns, -⟩ := exclusion_monotone skippingSchema .default (fun _ _ => .ok "") h₁ h₂ rfl
    (Finset.empty_subset _)
  obtain ⟨-, -, hsteady⟩ := hruns _ Sink.memory [] _ _ _ hrun
  obtain ⟨tally, report, hless⟩ := hsteady hsteadfast []
  exact ⟨_, _, tally, report, h₁, h₂, rfl, Finset.empty_subset _, hrun, hsteadfast, hless⟩

/-- A leaf that names its artifacts by a field, and one that suppresses. -/
def placingSchema : Schema :=
  ⟨⟨[([], []), ([.ofKey "cases"], []), ([.ofKey "cases", .wildcard], []), ([.ofKey "skips"], []),
      ([.ofKey "skips", .wildcard], [])]⟩, [],
    ⟨[([.ofKey "cases", .wildcard], ⟨some "%(p)s", some (.inline "t"), .generate, [], []⟩),
      ([.ofKey "skips", .wildcard], ⟨none, none, .suppress, [], []⟩)]⟩, ⟨[]⟩⟩

/-- Three artifacts, of which the last lies below the name of the first. -/
def placingSpec (skips : List Json) : Json := .obj [
  ("cases", .arr [.obj [("p", .arr [.str ".a.tmp", .str "a", .str ".a.tmp/x"])]]), ("skips", .arr skips)]

/-- Where `a` is written, its temporary file takes the place of `.a.tmp` and leaves it free for a directory.
Without `a` that place holds a file, and what should be written below it is refused. -/
theorem suppressed_write_missed :
    Schema.compile (.obj [("/cases/*", .obj [("path", .str "%(p)s"), ("template", .str "t")]),
      ("/skips/*", .obj [("action", .str "suppress")])]) = .ok placingSchema ∧
    ∃ found₁ found₂,
      Pattern.ofSpec placingSchema (placingSpec []) = .ok found₁ ∧
      Pattern.ofSpec placingSchema (placingSpec [.obj [("p", .str "a")]]) = .ok found₂ ∧
      generating placingSchema found₁ = generating placingSchema found₂ ∧
      excludedKeys placingSchema found₁ ⊆ excludedKeys placingSchema found₂ ∧
      (runOn placingSchema .default (fun _ _ => .ok "") (Sink.files Machine.platform "out") (placingSpec [])
        (.ofFiles ⟨[], []⟩)).1.2.isOk = true ∧
      (runOn placingSchema .default (fun _ _ => .ok "") (Sink.files Machine.platform "out")
        (placingSpec [.obj [("p", .str "a")]]) (.ofFiles ⟨[], []⟩)).1.2.isOk = false := by
  refine ⟨rfl, _, _, rfl, rfl, rfl, Finset.empty_subset _, ?_, ?_⟩
  · rw [runOn_eq]
    decide +kernel
  · rw [runOn_eq]
    decide +kernel

end Generate

end TestMatrix
