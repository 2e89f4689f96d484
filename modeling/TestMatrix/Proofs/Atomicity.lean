import TestMatrix.Proofs.Untroubled

/-!
# Writes are atomic

Wherever a write is interrupted, be it in the middle of the data, there is at its place what was there
before or the whole new content. A write that fails before its file is renamed leaves there what was there;
after that only bringing the directory to the disk can fail, and the content is there. The one exception
are roots that go up again: a directory that is made for one may take the place of the file.
-/

namespace TestMatrix

namespace FileSystem

variable {fs after : FileSystem}

/-! ## Interrupted calls -/

/-- Part of the data can be written where all can. -/
theorem append_part {path : String} {front back : ByteArray} (h : fs.append path (front ++ back) = .ok after) :
    ∃ between, fs.append path front = .ok between := by
  unfold append at h ⊢
  obtain ⟨⟨location, node⟩, hlocate, h⟩ := Except.bind_eq_ok.mp h
  rw [hlocate]
  cases node with
  | directory => cases h
  | file before => exact ⟨_, rfl⟩

theorem foldlM_interrupted {calls done : List SystemCall} (hstop : Interrupted calls done)
    (h : calls.foldlM perform fs = .ok after) : ∃ between, done.foldlM perform fs = .ok between := by
  induction hstop generalizing fs with
  | before => exact ⟨fs, rfl⟩
  | within path front back rest =>
    obtain ⟨next, happend, -⟩ := foldlM_perform_cons.mp h
    obtain ⟨between, hpart⟩ := append_part happend
    exact ⟨between, foldlM_perform_cons.mpr ⟨between, hpart, rfl⟩⟩
  | after call _ ih =>
    obtain ⟨next, hcall, hrest⟩ := foldlM_perform_cons.mp h
    obtain ⟨between, hdone⟩ := ih hrest
    exact ⟨between, foldlM_perform_cons.mpr ⟨next, hcall, hdone⟩⟩

end FileSystem

namespace Writer

open FileSystem

variable {fs after between : FileSystem} {root path : String} {content : ByteArray} {made calls done : List SystemCall}

/-- Where the root goes up, the file may have the place of a directory above it. -/
def IsCircular (fs : FileSystem) (root path : String) : Prop :=
  ".." ∈ FilePath.names root ∧ ∃ directory ∈ directories (FilePath.join root path),
    fs.destination directory = fs.destination (FilePath.join root path)

/-- What is at the place of a file is what was there, or this directory. -/
def IsKept (root path : String) (fs after : FileSystem) : Prop :=
  after.node? (fs.destination (FilePath.join root path)) = fs.node? (fs.destination (FilePath.join root path)) ∨
    IsCircular fs root path ∧ fs.node? (fs.destination (FilePath.join root path)) = none ∧
      after.node? (fs.destination (FilePath.join root path)) = some .directory

theorem IsKept.of_node?_eq {mid : FileSystem} (h : IsKept root path fs between)
    (hnode : mid.node? (fs.destination (FilePath.join root path)) =
      between.node? (fs.destination (FilePath.join root path))) : IsKept root path fs mid := by
  unfold IsKept at h ⊢
  rw [hnode]
  exact h

theorem Makes.isKept (h : Makes fs (FilePath.join root path) between made) (hplain : FilePath.isPlain path = true) :
    IsKept root path fs between := by
  have hnode := foldlM_makeDirectory_node? h.performed h.directories (fs.destination (FilePath.join root path))
  refine hnode.imp id fun hnew => ?_
  obtain ⟨hfree, hthere, directory, hdirectory, hsame⟩ := hnew
  refine ⟨⟨?_, directory, hdirectory, hsame⟩, hfree, hthere⟩
  by_contra hroot
  exact fs.destination_directory_ne hplain hroot hdirectory hsame

theorem Makes.interrupted (h : Makes fs path between made) (hstop : Interrupted made done) :
    ∃ mid, Makes fs path mid done := by
  obtain ⟨mid, hmid⟩ := foldlM_interrupted hstop h.performed
  refine ⟨mid, hmid, hstop.forall_mem (fun path front back hpart => ?_) h.directories⟩
  obtain ⟨directory, -, hcall⟩ := hpart
  cases hcall

/-- Whether the temporary file has been renamed. -/
def IsMoved (path : String) (calls : List SystemCall) : Prop :=
  ∃ temporary, temporary? path = some temporary ∧ .rename temporary path ∈ calls

theorem Makes.not_isMoved (h : Makes fs path between made) : ¬ IsMoved path made := by
  rintro ⟨temporary, -, hmove⟩
  obtain ⟨directory, -, hcall⟩ := h.directories _ hmove
  cases hcall

theorem Makes.isMoved_append (h : Makes fs path between made) {temporary : String}
    (htemporary : temporary? path = some temporary) :
    IsMoved path (made ++ calls) ↔ .rename temporary path ∈ calls := by
  constructor
  · rintro ⟨temporary', htemporary', hmove⟩
    refine (List.mem_append.mp hmove).elim (fun hmade => ?_) fun hcalls => ?_
    · exact absurd ⟨temporary', htemporary', hmade⟩ h.not_isMoved
    · rw [htemporary] at htemporary'
      cases htemporary'
      exact hcalls
  · exact fun hmove => ⟨temporary, htemporary, List.mem_append_right _ hmove⟩

/-- What is left of a path when calls have been carried out: what was there once directories above were made,
until the temporary file is renamed, and the new content from then on. -/
def Leaves (fs : FileSystem) (path : String) (content : ByteArray) (done : List SystemCall) (mid : FileSystem) : Prop :=
  (¬ IsMoved path done ∧ ∃ made between, Makes fs path between made ∧
    mid.node? (fs.destination path) = between.node? (fs.destination path)) ∨
  (IsMoved path done ∧ mid.node? (fs.destination path) = some (.file content))

theorem Makes.leaves (h : Makes fs path between made) : Leaves fs path content made between :=
  .inl ⟨h.not_isMoved, made, between, h, rfl⟩

theorem Makes.leaves_append {temporary : String} {later : List SystemCall} (h : Makes fs path between made)
    (htemporary : temporary? path = some temporary) (hstands : Stands between temporary path content after later) :
    Leaves fs path content (made ++ later) after := by
  unfold Leaves
  rw [h.isMoved_append htemporary, ← h.keeps.destination]
  cases hstands with
  | untouched => exact .inl ⟨List.not_mem_nil, made, _, h, rfl⟩
  | filled _ _ hmove hfilled =>
    exact .inl ⟨hmove, made, between, h, hfilled.nodes _ (between.destination_temporary_ne htemporary).symm⟩
  | moved hmove hmoved => exact .inr ⟨hmove, hmoved.node?⟩

/-- Wherever the course of a replacement is interrupted, and at its end. -/
theorem Course.leaves {answer : Except WriteFault Unit} (h : Course fs path content answer after calls)
    (hstop : Interrupted calls done) :
    ∃ mid, done.foldlM perform fs = .ok mid ∧ Leaves fs path content done mid := by
  cases h with
  | unbegun hmade =>
    obtain ⟨mid, hmid⟩ := hmade.interrupted hstop
    exact ⟨mid, hmid.performed, hmid.leaves⟩
  | @begun between _ made later temporary _ hmade htemporary hbegun hlater _ =>
    cases hstop.append_cases with
    | inl hfirst =>
      obtain ⟨mid, hmid⟩ := hmade.interrupted hfirst
      exact ⟨mid, hmid.performed, hmid.leaves⟩
    | inr hsecond =>
      obtain ⟨rest, rfl, hrest⟩ := hsecond
      obtain ⟨mid, hmid⟩ := foldlM_interrupted hrest hlater
      refine ⟨mid, ?_, hmade.leaves_append htemporary (stands_of_interrupted (hbegun.trans hrest) hmid)⟩
      rw [List.foldlM_append, hmade.performed]
      exact hmid

theorem Course.leaves_after {answer : Except WriteFault Unit} (h : Course fs path content answer after calls) :
    Leaves fs path content calls after := by
  cases h with
  | unbegun hmade => exact hmade.leaves
  | begun hmade htemporary hbegun hlater _ =>
    exact hmade.leaves_append htemporary (stands_of_interrupted hbegun hlater)

theorem Leaves.isKept {mid : FileSystem} (h : Leaves fs (FilePath.join root path) content done mid)
    (hplain : FilePath.isPlain path = true) (hmove : ¬ IsMoved (FilePath.join root path) done) :
    IsKept root path fs mid := by
  obtain ⟨-, made, between, hmade, hnode⟩ := h.resolve_right fun hmoved => hmove hmoved.1
  exact (hmade.isKept hplain).of_node?_eq hnode

theorem Course.read (h : Course fs path content (.ok ()) after calls) : after.read path = .ok content := by
  obtain ⟨between, made, temporary, hmade, -, hmoved⟩ := h.moved
  obtain ⟨target, htarget, hentry⟩ := hmoved.entry
  exact read_eq htarget hentry (by rw [hmoved.files, hmoved.keeps.destination, if_pos rfl])

theorem CalmCourse.not_isMoved {fault : WriteFault} (h : CalmCourse fs path content (.error fault) after calls) :
    ¬ IsMoved path calls := by
  cases h with
  | unbegun hmade => exact hmade.not_isMoved
  | unmoved hmade _ _ =>
    rintro ⟨temporary', htemporary', hmove⟩
    refine (List.mem_append.mp hmove).elim (fun hfirst => ?_) fun hlater => ?_
    · exact hmade.not_isMoved ⟨temporary', htemporary', hfirst⟩
    · simp at hlater

/-- A write that succeeds puts the content in place and gives the number of its bytes. One that fails keeps what
is there unless the temporary file has been renamed, and then the content is there; without troubles it never
has. A write that is interrupted keeps what is there, or all of the new content is there. -/
theorem replaces_atomically (machine : Machine) (root path content : String) :
    ∃ answer after calls, record machine root path content = (answer, after, calls) ∧
      write Machine.platform.files root path content machine = (answer, after) ∧
      (∀ n, answer = .ok n →
        after.files.read (FilePath.join root path) = .ok content.toUTF8 ∧ n = content.toUTF8.size) ∧
      (∀ fault, answer = .error fault →
        (¬ IsMoved (FilePath.join root path) calls → IsKept root path machine.files after.files) ∧
        (IsMoved (FilePath.join root path) calls → machine.troubles ≠ [] ∧
          after.files.node? (machine.files.destination (FilePath.join root path)) = some (.file content.toUTF8))) ∧
      ∀ done, Interrupted calls done → ∃ mid, done.foldlM perform machine.files = .ok mid ∧
        (IsKept root path machine.files mid ∨
          mid.node? (machine.files.destination (FilePath.join root path)) = some (.file content.toUTF8)) := by
  have hwrite := write_eq_record machine root path content
  have houtcome := outcome_record machine root path content
  rcases hrecord : record machine root path content with ⟨answer, after, calls⟩
  rw [hrecord] at hwrite houtcome
  refine ⟨answer, after, calls, rfl, hwrite, ?_⟩
  cases houtcome with
  | refused fault =>
    have hnone : ¬ IsMoved (FilePath.join root path) [] := by
      rintro ⟨temporary, -, hmove⟩
      cases hmove
    refine ⟨nofun, fun _ _ => ⟨fun _ => .inl rfl, fun hmoved => absurd hmoved hnone⟩, fun done hstop => ?_⟩
    cases hstop
    exact ⟨_, rfl, .inl (.inl rfl)⟩
  | @ran answer _ _ hplain hcourse hcalm =>
    refine ⟨fun n hok => ?_, fun fault hfault => ⟨fun hmove => ?_, fun hmove => ⟨fun htroubles => ?_, ?_⟩⟩,
      fun done hstop => ?_⟩
    · cases answer with
      | error fault => cases hok
      | ok u =>
        cases hok
        exact ⟨hcourse.read, rfl⟩
    · exact hcourse.leaves_after.isKept hplain hmove
    · cases answer with
      | ok u => cases hfault
      | error fault => exact (hcalm htroubles).not_isMoved hmove
    · exact (hcourse.leaves_after.resolve_left fun hkept => hkept.1 hmove).2
    · obtain ⟨mid, hmid, hleaves⟩ := hcourse.leaves hstop
      refine ⟨mid, hmid, ?_⟩
      by_cases hmove : IsMoved (FilePath.join root path) done
      · exact .inr (hleaves.resolve_left fun hkept => hkept.1 hmove).2
      · exact .inl (hleaves.isKept hplain hmove)

/-- Below a root that does not go up there is nothing, then all of a new file. -/
theorem new_file_written_at_once :
    (record Machine.blank "out" "a/b" "x").2.1.files.read (FilePath.join "out" "a/b") = .ok "x".toUTF8 ∧
    ∀ done, Interrupted (record Machine.blank "out" "a/b" "x").2.2 done →
      ∃ mid, done.foldlM perform Machine.blank.files = .ok mid ∧
        (mid.node? ["out", "a", "b"] = none ∨ mid.node? ["out", "a", "b"] = some (.file "x".toUTF8)) := by
  have hok : (record Machine.blank "out" "a/b" "x").1.isOk = true := by decide +kernel
  have hplace : Machine.blank.files.destination (FilePath.join "out" "a/b") = ["out", "a", "b"] := by decide
  have hroot : ".." ∉ FilePath.names "out" := by decide
  obtain ⟨answer, after, calls, hrecord, -, hwritten, -, hinterrupted⟩ :=
    replaces_atomically Machine.blank "out" "a/b" "x"
  rw [hrecord] at hok ⊢
  unfold IsKept at hinterrupted
  rw [hplace] at hinterrupted
  refine ⟨?_, fun done hstop => ?_⟩
  · cases answer with
    | error fault => cases hok
    | ok n => exact (hwritten n rfl).1
  · obtain ⟨mid, hmid, hnode⟩ := hinterrupted done hstop
    exact ⟨mid, hmid, hnode.imp (fun hkept => hkept.resolve_right fun hnew => hroot hnew.1.1) id⟩

/-- A machine on which the sixth system call fails, with nothing on it. -/
def unsynced : Machine :=
  { Machine.blank with troubles := [none, none, none, none, none, some ⟨.other "Permission denied (os error 13)", 0⟩] }

/-- Of the root `a/..` the directory `a` is made, and a file `a` below this root cannot be put there. And where
the directory of a file cannot be opened, the write fails with the file in place. -/
theorem directory_takes_place :
    ((record Machine.blank "a/.." "a" "x").1.isOk = false ∧
      Machine.blank.files.destination (FilePath.join "a/.." "a") = Machine.blank.files.destination "a" ∧
      (Machine.blank.files.node? (Machine.blank.files.destination "a")).isNone = true ∧
      (record Machine.blank "a/.." "a" "x").2.1.files.isDirectory "a" = true) ∧
    (record unsynced "out" "a" "x").1.isOk = false ∧
      unsynced.files.isFile "out/a" = false ∧ (record unsynced "out" "a" "x").2.1.files.isFile "out/a" = true :=
  ⟨⟨by decide +kernel, by decide, by decide, by decide +kernel⟩, by decide +kernel, by decide, by decide +kernel⟩

end Writer

end TestMatrix
