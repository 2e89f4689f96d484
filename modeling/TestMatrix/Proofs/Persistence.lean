import TestMatrix.Proofs.Untroubled
import TestMatrix.Proofs.Traces
import TestMatrix.Run.Hosts

/-!
# What stays of written artifacts

A successful write leaves its content at its place, takes away what was at the place of its temporary
file, and changes no other file. Of artifacts written in turn, the last at a place stays there unless a
later one has its temporary file in the same place.
-/

namespace TestMatrix

/-! ## One write -/

namespace Machine

open FileSystem

/-- What a successful write of this content to a path leaves. -/
structure Wrote (path : String) (content : ByteArray) (machine after : Machine) : Prop where
  keeps : KeepsDirectories machine.files after.files
  entry : ∃ target, after.files.target path = .ok target ∧ target.IsEntry
  files : ∀ location, after.files.file? location =
    if location = machine.files.destination path then some content
    else if location = Writer.beside (machine.files.destination path) then none
    else machine.files.file? location

theorem wrote_of_write {root path content : String} {bytes : Nat} {machine after : Machine}
    (h : Writer.write platform.files root path content machine = (.ok bytes, after)) :
    FilePath.isPlain path = true ∧ Wrote (FilePath.join root path) content.toUTF8 machine after := by
  have houtcome := Writer.outcome_record machine root path content
  rw [Writer.write_eq_record, Prod.mk.injEq] at h
  rw [h.1, h.2] at houtcome
  generalize (Writer.record machine root path content).2.2 = calls at houtcome
  generalize hanswer : (.ok bytes : Except WriteFault Nat) = answer at houtcome
  cases houtcome with
  | refused fault => cases hanswer
  | @ran outcome _ _ hplain hcourse _ =>
    cases outcome with
    | error fault => cases hanswer
    | ok u =>
      obtain ⟨between, made, temporary, hmade, htemporary, hmoved⟩ := hcourse.moved
      refine ⟨hplain, hmade.keeps.trans hmoved.keeps, hmoved.entry, fun location => ?_⟩
      rw [hmoved.files, hmade.file?, hmade.keeps.destination, hmade.keeps.destination,
        machine.files.destination_temporary htemporary]

end Machine

/-! ## Writes in turn -/

section
variable {σ : Type} {deliver : Sink (StateM σ)}

theorem handOver_cons_ok {artifact : Artifact} {rest : List Artifact} {numbers : List Nat} {s s' : σ}
    (h : handOver deliver (artifact :: rest) s = ((numbers, none), s')) :
    ∃ bytes others next, deliver artifact s = (.ok bytes, next) ∧
      handOver deliver rest next = ((others, none), s') := by
  rcases hanswer : deliver artifact s with ⟨answer, next⟩
  cases answer with
  | error fault =>
    rw [handOver_refused hanswer] at h
    cases h
  | ok bytes =>
    rw [handOver_cons hanswer] at h
    rcases hrest : handOver deliver rest next with ⟨⟨others, refusal⟩, last⟩
    rw [hrest] at h
    cases h
    exact ⟨bytes, others, next, rfl, hrest⟩

theorem handOver_eq {artifacts : List Artifact} {s : σ} (h : (handOver deliver artifacts s).1.2 = none) :
    handOver deliver artifacts s =
      (((handOver deliver artifacts s).1.1, none), (handOver deliver artifacts s).2) :=
  Prod.ext (Prod.ext rfl h) rfl

theorem handOver_append_ok {before rest : List Artifact} {numbers : List Nat} {s s' : σ}
    (h : handOver deliver (before ++ rest) s = ((numbers, none), s')) :
    ∃ others next, handOver deliver rest next = ((others, none), s') := by
  induction before generalizing s numbers with
  | nil => exact ⟨numbers, s, h⟩
  | cons artifact before ih =>
    obtain ⟨_, others, next, -, hnext⟩ := handOver_cons_ok h
    exact ih hnext

end

namespace Machine

open FilePath

variable {root : String} {machine after : Machine}

/-- An artifact that was written has a name, and lies below the root. -/
theorem wrote_of_deliver {artifact : Artifact} {bytes : Nat}
    (h : Sink.files platform root artifact machine = (.ok bytes, after)) :
    isPlain artifact.path = true ∧ names artifact.path ≠ [] ∧
      Wrote (join root artifact.path) artifact.content.toUTF8 machine after := by
  unfold Sink.files at h
  rcases hwrite : Writer.write platform.files root artifact.path artifact.content machine with ⟨answer, next⟩
  rw [StateM.bind_run hwrite] at h
  cases answer with
  | error fault => cases h
  | ok written =>
    have hfiles : after.files = next.files := by
      cases h
      rfl
    by_cases hempty : artifact.path = ""
    · rw [hempty] at hwrite
      cases hwrite
    · obtain ⟨hplain, hkeeps, ⟨target, htarget, hentry⟩, hplaces⟩ := wrote_of_write hwrite
      rw [← hfiles] at hkeeps htarget
      refine ⟨hplain, fun hnames => ?_, hkeeps, ⟨target, htarget, hentry⟩, fun location => ?_⟩
      · exact Writer.not_isEntry_of_nameless hempty hplain hnames htarget hentry
      · rw [hfiles]
        exact hplaces location

/-- Places where no artifact goes hold what they held, unless a temporary file was made there. -/
theorem file?_of_handOver {artifacts : List Artifact} {numbers : List Nat} {location : Location}
    (h : handOver (Sink.files platform root) artifacts machine = ((numbers, none), after))
    (hlocation : ∀ artifact ∈ artifacts, location ≠ machine.files.destination (join root artifact.path)) :
    after.files.file? location =
      if ∃ artifact ∈ artifacts, location = Writer.beside (machine.files.destination (join root artifact.path))
      then none else machine.files.file? location := by
  induction artifacts generalizing machine numbers with
  | nil =>
    cases h
    simp
  | cons artifact rest ih =>
    obtain ⟨_, _, next, hfirst, hrest⟩ := handOver_cons_ok h
    obtain ⟨-, -, hwrote⟩ := wrote_of_deliver hfirst
    have hplace (other : Artifact) : next.files.destination (join root other.path) =
        machine.files.destination (join root other.path) := hwrote.keeps.destination _
    have hnext := ih hrest fun other hother => by
      rw [hplace]
      exact hlocation other (List.mem_cons_of_mem _ hother)
    simp only [hplace] at hnext
    rw [hnext, hwrote.files, if_neg (hlocation artifact List.mem_cons_self)]
    simp only [List.exists_mem_cons_iff]
    by_cases hhere : location = Writer.beside (machine.files.destination (join root artifact.path))
    · rw [if_pos hhere, ite_self, if_pos (Or.inl hhere)]
    · rw [if_neg hhere]
      simp only [hhere, false_or]

theorem keepsDirectories_handOver {artifacts : List Artifact} {numbers : List Nat}
    (h : handOver (Sink.files platform root) artifacts machine = ((numbers, none), after)) :
    FileSystem.KeepsDirectories machine.files after.files := by
  induction artifacts generalizing machine numbers with
  | nil =>
    cases h
    exact .refl _
  | cons artifact rest ih =>
    obtain ⟨_, _, next, hfirst, hrest⟩ := handOver_cons_ok h
    exact (wrote_of_deliver hfirst).2.2.keeps.trans (ih hrest)

theorem named_of_handOver {artifacts : List Artifact} {numbers : List Nat}
    (h : handOver (Sink.files platform root) artifacts machine = ((numbers, none), after)) :
    ∀ artifact ∈ artifacts, isPlain artifact.path = true ∧ names artifact.path ≠ [] := by
  intro artifact hmem
  obtain ⟨bytes, before, hdelivered⟩ := accepted_of_handOver (congrArg (·.1.2) h) artifact hmem
  obtain ⟨hplain, hnames, -⟩ := wrote_of_deliver (Prod.ext hdelivered rfl)
  exact ⟨hplain, hnames⟩

/-- Of artifacts that were all written, the last with its names is there in the end with its content,
unless a later one has its temporary file there: then the place holds no file. -/
theorem last_written_stays (before later : List Artifact) (artifact : Artifact) {numbers : List Nat}
    (h : handOver (Sink.files platform root) (before ++ artifact :: later) machine = ((numbers, none), after))
    (hlast : ∀ other ∈ later, names other.path ≠ names artifact.path) :
    ((∀ other ∈ later, Writer.beside (names other.path) ≠ names artifact.path) →
      after.files.read (join root artifact.path) = .ok artifact.content.toUTF8) ∧
    ((∃ other ∈ later, Writer.beside (names other.path) = names artifact.path) →
      after.files.isFile (join root artifact.path) = false) := by
  obtain ⟨_, start, hrun⟩ := handOver_append_ok h
  obtain ⟨_, _, next, hwritten, hlater⟩ := handOver_cons_ok hrun
  obtain ⟨hplain, -, hwrote⟩ := wrote_of_deliver hwritten
  have hnamed := named_of_handOver hlater
  have hkeeps := keepsDirectories_handOver hlater
  have hheld : next.files.file? (next.files.destination (join root artifact.path)) =
      some artifact.content.toUTF8 := by
    rw [hwrote.files, hwrote.keeps.destination, if_pos rfl]
  have helsewhere : ∀ other ∈ later, next.files.destination (join root artifact.path) ≠
      next.files.destination (join root other.path) := by
    intro other hmem hsame
    exact hlast other hmem ((next.files.destination_join_inj root hplain (hnamed other hmem).1).mp hsame).symm
  have hbeside : ∀ other ∈ later, (next.files.destination (join root artifact.path) =
      Writer.beside (next.files.destination (join root other.path)) ↔
        names artifact.path = Writer.beside (names other.path)) := fun other hmem =>
    next.files.destination_join_eq_beside root hplain (hnamed other hmem).1 (hnamed other hmem).2
  have hfile := file?_of_handOver hlater helsewhere
  constructor
  · intro hfree
    have hnone : ¬ ∃ other ∈ later, next.files.destination (join root artifact.path) =
        Writer.beside (next.files.destination (join root other.path)) := by
      intro hsome
      obtain ⟨other, hmem, hsame⟩ := hsome
      exact hfree other hmem ((hbeside other hmem).mp hsame).symm
    rw [if_neg hnone, hheld, ← hkeeps.destination] at hfile
    obtain ⟨target, htarget, hentry⟩ := hwrote.entry
    exact FileSystem.read_eq (hkeeps.target htarget) hentry hfile
  · intro htaken
    obtain ⟨other, hmem, hsame⟩ := htaken
    rw [if_pos ⟨other, hmem, (hbeside other hmem).mpr hsame.symm⟩, ← hkeeps.destination] at hfile
    exact FileSystem.isFile_eq_false hfile

/-- An artifact written between two writes to another place stays. -/
theorem written_between_stays :
    (handOver (Sink.files platform "out") [⟨"a", "0"⟩, ⟨"./b", "1"⟩, ⟨"a", "2"⟩] blank).2.files.read
      "out/./b" = .ok "1".toUTF8 := by
  have hunrefused : (handOver (Sink.files platform "out") [⟨"a", "0"⟩, ⟨"./b", "1"⟩, ⟨"a", "2"⟩]
      blank).1.2 = none := Option.isNone_iff_eq_none.mp (by decide +kernel)
  have hall := handOver_eq hunrefused
  exact (last_written_stays [⟨"a", "0"⟩] [⟨"a", "2"⟩] ⟨"./b", "1"⟩ hall (by decide)).1 (by decide)

/-- The artifact `.a.tmp` stands where `a` has its temporary file: both are written, and only `a` is left. -/
theorem temporary_takes_artifact :
    (handOver (Sink.files platform "out") [⟨".a.tmp", "1"⟩, ⟨"a", "2"⟩] blank).1.1 = [1, 1] ∧
    (handOver (Sink.files platform "out") [⟨".a.tmp", "1"⟩, ⟨"a", "2"⟩] blank).1.2.isNone = true ∧
    names "a" ≠ names ".a.tmp" ∧
    (handOver (Sink.files platform "out") [⟨".a.tmp", "1"⟩, ⟨"a", "2"⟩] blank).2.files.isFile
      "out/.a.tmp" = false ∧
    (handOver (Sink.files platform "out") [⟨".a.tmp", "1"⟩, ⟨"a", "2"⟩] blank).2.files.isFile
      "out/a" = true :=
  ⟨by decide +kernel, by decide +kernel, by decide, by decide +kernel, by decide +kernel⟩

end Machine

end TestMatrix
