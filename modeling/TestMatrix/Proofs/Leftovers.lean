import TestMatrix.Proofs.Atomicity

/-!
# What writes leave behind

A write changes no file but the one it is for, unless it ends between making its temporary file and renaming
it: then this file stays, with what has been written of the content. Any failing call can bring that about.
Without troubles it happens just where there is a directory in the place of the file, or where the path does
not end in a component, so that it asks for a directory, or is too long to be walked; and all of the
content is left.
-/

namespace TestMatrix

namespace Writer

open FileSystem

variable {fs after between : FileSystem} {path : String} {content : ByteArray} {made calls later : List SystemCall}

/-- Whether a write has left its temporary file behind. -/
structure IsLeft (path temporary : String) (calls : List SystemCall) : Prop where
  named : temporary? path = some temporary
  created : .create temporary ∈ calls
  unmoved : ¬ IsMoved path calls

theorem Makes.not_created (h : Makes fs path between made) (temporary : String) : .create temporary ∉ made := by
  intro hcreate
  obtain ⟨directory, -, hcall⟩ := h.directories _ hcreate
  cases hcall

/-- What a replacement leaves of the files: the temporary one beside those that were there, or these only. -/
theorem Course.files {answer : Except WriteFault Unit} (h : Course fs path content answer after calls)
    (hfree : ∀ temporary, temporary? path = some temporary → fs.file? (fs.destination temporary) = none) :
    (∃ temporary error front back, IsLeft path temporary calls ∧ answer = .error (.system error) ∧
      content = front ++ back ∧ ∀ location, after.file? location =
        if location = fs.destination temporary then some front else fs.file? location) ∨
    (¬ ∃ temporary, IsLeft path temporary calls) ∧
      ∀ location, location ≠ fs.destination path → after.file? location = fs.file? location := by
  cases h with
  | unbegun hmade =>
    exact .inr ⟨fun ⟨temporary, hleft⟩ => hmade.not_created temporary hleft.created,
      fun location _ => hmade.file? location⟩
  | @begun between _ made later temporary outcome hmade htemporary hstop hlater houtcome =>
    cases stands_of_interrupted hstop hlater with
    | untouched =>
      rw [List.append_nil]
      exact .inr ⟨fun ⟨temporary, hleft⟩ => hmade.not_created temporary hleft.created,
        fun location _ => hmade.file? location⟩
    | @filled _ front back _ hcontent hcreate hmove hfilled =>
      have hunmoved : ¬ IsMoved path (made ++ later) := mt (hmade.isMoved_append htemporary).mp hmove
      cases outcome with
      | ok u =>
        rw [houtcome rfl, replacement_eq] at hmove
        simp at hmove
      | error error =>
        refine .inl ⟨temporary, error, front, back, ⟨htemporary, List.mem_append_right _ hcreate, hunmoved⟩, rfl,
          hcontent, fun location => ?_⟩
        rw [hfilled.file?, hmade.file?, hmade.keeps.destination]
    | moved hmove hmoved =>
      refine .inr ⟨fun ⟨_, hleft⟩ => hleft.unmoved ((hmade.isMoved_append htemporary).mpr hmove),
        fun location hlocation => ?_⟩
      rw [hmoved.files, hmade.keeps.destination, hmade.keeps.destination, if_neg hlocation, hmade.file?]
      split
      next hthere => rw [hthere, hfree _ htemporary]
      next => rfl

/-- Without troubles the temporary file is left where no file can be, and then it is full. -/
theorem CalmCourse.isLeft_iff {answer : Except WriteFault Unit} (h : CalmCourse fs path content answer after calls)
    {temporary : String} (htemporary : temporary? path = some temporary) (hcreate : .create temporary ∈ calls) :
    (IsLeft path temporary calls ↔ ¬ IsDefinite path ∨ after.node? (after.destination path) = some .directory) ∧
    (IsLeft path temporary calls → after.file? (fs.destination temporary) = some content) := by
  cases h with
  | unbegun hmade => exact absurd hcreate (hmade.not_created temporary)
  | @unmoved between filled made other error hmade hfilled hunfit =>
    have hunmoved : ¬ IsMoved path (made ++ [.create other, .append other content, .sync other]) :=
      mt (hmade.isMoved_append htemporary).mp (by simp)
    have hsame : temporary = other := by
      refine (List.mem_append.mp hcreate).elim (fun hmade' => ?_) fun hlater => ?_
      · exact absurd hmade' (hmade.not_created temporary)
      · simpa using hlater
    refine ⟨iff_of_true ⟨htemporary, hcreate, hunmoved⟩ hunfit, fun _ => ?_⟩
    rw [hsame, ← hmade.keeps.destination, hfilled.held]
  | @replaced between _ made other hmade hmoved =>
    have hsame : temporary = other := by
      refine (List.mem_append.mp hcreate).elim (fun hmade' => ?_) fun hlater => ?_
      · exact absurd hmade' (hmade.not_created temporary)
      · rw [replacement_eq] at hlater
        have hidle : SystemCall.create temporary ∉ idleCalls path := by
          intro hmem
          obtain ⟨parent, hcall⟩ := idle_of_mem hmem
          cases hcall with
          | inl h => cases h
          | inr h => cases h
        simpa [hidle] using hlater
    have hmove : IsMoved path (made ++ replacement other path content) := by
      rw [hmade.isMoved_append htemporary, hsame, replacement_eq]
      simp
    have hkept : ¬ IsLeft path temporary (made ++ replacement other path content) := fun hleft => hleft.unmoved hmove
    exact ⟨iff_of_false hkept (not_or.mpr ⟨not_not.mpr hmoved.fit.1, hmoved.fit.2⟩), fun hleft => absurd hleft hkept⟩

/-- Where there was no file with the temporary name, a write changes no file but the one it is for, if and only
if it does not leave its temporary file. One that is left holds a beginning of the content, and the write has
failed. Without troubles it is left just where no file can be, and it holds all of the content. -/
theorem leaves_no_temporary (machine : Machine) (root path content : String)
    (hfree : ∀ temporary, temporary? (FilePath.join root path) = some temporary →
      machine.files.file? (machine.files.destination temporary) = none) :
    ∃ answer after calls, record machine root path content = (answer, after, calls) ∧
      write Machine.platform.files root path content machine = (answer, after) ∧
      ((∀ location, location ≠ machine.files.destination (FilePath.join root path) →
          after.files.file? location = machine.files.file? location) ↔
        ¬ ∃ temporary, IsLeft (FilePath.join root path) temporary calls) ∧
      (∀ temporary, IsLeft (FilePath.join root path) temporary calls →
        (∃ error, answer = .error (.system error)) ∧ ∃ front back, content.toUTF8 = front ++ back ∧
          ∀ location, after.files.file? location =
            if location = machine.files.destination temporary then some front else machine.files.file? location) ∧
      (machine.troubles = [] → ∀ temporary, temporary? (FilePath.join root path) = some temporary →
        .create temporary ∈ calls →
        (IsLeft (FilePath.join root path) temporary calls ↔ ¬ IsDefinite (FilePath.join root path) ∨
          after.files.node? (after.files.destination (FilePath.join root path)) = some .directory) ∧
        (IsLeft (FilePath.join root path) temporary calls →
          after.files.file? (machine.files.destination temporary) = some content.toUTF8)) := by
  have hwrite := write_eq_record machine root path content
  have houtcome := outcome_record machine root path content
  rcases hrecord : record machine root path content with ⟨answer, after, calls⟩
  rw [hrecord] at hwrite houtcome
  refine ⟨answer, after, calls, rfl, hwrite, ?_⟩
  cases houtcome with
  | refused fault =>
    have hnone (temporary : String) : ¬ IsLeft (FilePath.join root path) temporary [] :=
      fun hleft => absurd hleft.created List.not_mem_nil
    exact ⟨iff_of_true (fun _ _ => rfl) (not_exists.mpr hnone), fun temporary hleft => absurd hleft (hnone temporary),
      fun _ _ _ hcreate => absurd hcreate List.not_mem_nil⟩
  | ran hplain hcourse hcalm =>
    refine ⟨?_, ?_, fun htroubles temporary htemporary hcreate => (hcalm htroubles).isLeft_iff htemporary hcreate⟩
    · cases hcourse.files hfree with
      | inl hstays =>
        obtain ⟨temporary, error, front, back, hleft, -, -, hfiles⟩ := hstays
        refine iff_of_false (fun hsame => ?_) (not_not.mpr ⟨temporary, hleft⟩)
        have hthere := hsame _ (machine.files.destination_temporary_ne hleft.named)
        rw [hfiles, if_pos rfl, hfree temporary hleft.named] at hthere
        cases hthere
      | inr hclean => exact iff_of_true hclean.2 hclean.1
    · intro temporary hleft
      obtain ⟨other, error, front, back, hother, hanswer, hcontent, hfiles⟩ :=
        (hcourse.files hfree).resolve_right fun hclean => hclean.1 ⟨temporary, hleft⟩
      have hsame := hleft.named.symm.trans hother.named
      cases hsame
      rw [hanswer]
      exact ⟨⟨error, rfl⟩, front, back, hcontent, hfiles⟩

/-- Where nothing was, a write to a path in a directory leaves its file alone. -/
theorem nested_write_leaves_file :
    (record Machine.blank "out" "a/b" "x").1.isOk = true ∧
    ∀ location, location ≠ Machine.blank.files.destination (FilePath.join "out" "a/b") →
      (record Machine.blank "out" "a/b" "x").2.1.files.file? location = none := by
  have hblank (location : Location) : Machine.blank.files.file? location = none := by
    unfold file?
    cases location <;> rfl
  have hok : (record Machine.blank "out" "a/b" "x").1.isOk = true := by decide +kernel
  refine ⟨hok, fun location hlocation => ?_⟩
  obtain ⟨answer, after, calls, hrecord, -, hsame, hleft, -⟩ :=
    leaves_no_temporary Machine.blank "out" "a/b" "x" fun _ _ => hblank _
  rw [hrecord] at hok ⊢
  have hnone : ¬ ∃ temporary, IsLeft (FilePath.join "out" "a/b") temporary calls := by
    intro h
    obtain ⟨temporary, h⟩ := h
    obtain ⟨⟨error, hanswer⟩, -⟩ := hleft temporary h
    rw [hanswer] at hok
    cases hok
  exact (hsame.mpr hnone location hlocation).trans (hblank location)

/-- A machine with a directory where a file is to be. -/
def occupied : Machine := Machine.ofFiles ⟨[(["out"], .directory), (["out", "a"], .directory)], []⟩

/-- A machine whose disk is full after one byte of the third system call. -/
def exhausted : Machine :=
  { Machine.blank with troubles := [none, none, some ⟨.other "No space left on device (os error 28)", 1⟩] }

/-- The temporary file stays beside a directory that has the name of the file. So does a part of it when the disk
is full. -/
theorem temporary_stays_beside_directory :
    (occupied.files.isFile "out/.a.tmp" = false ∧ (record occupied "out" "a" "x").1.isOk = false ∧
      (record occupied "out" "a" "x").2.1.files.isFile "out/.a.tmp" = true ∧
      (record occupied "out" "a" "x").2.1.files.destination "out/.a.tmp" ≠
        (record occupied "out" "a" "x").2.1.files.destination (FilePath.join "out" "a")) ∧
    (record exhausted "out" "a" "xy").1.isOk = false ∧
      (record exhausted "out" "a" "xy").2.1.files.file? ["out", ".a.tmp"] = some "x".toUTF8 :=
  ⟨⟨by decide, by decide +kernel, by decide +kernel, by decide +kernel⟩, by decide +kernel, by decide +kernel⟩

end Writer

end TestMatrix
