import TestMatrix.Proofs.Placeholders

/-!
# Templates one behind the other

A piece ends before the next one begins, so the reader does not notice where one template stops and another
goes on. Main statement: two templates in one text are filled in one after the other, as long as the first
can be filled in at all. A text with its percent signs doubled has no placeholders and comes out as it was.
-/

namespace TestMatrix

/-- The same fault with this many bytes in front of the template. -/
def TemplateFault.behind (before : Nat) : TemplateFault → TemplateFault
  | .incomplete offset => .incomplete (before + offset)
  | fault => fault

namespace Template

def escapedChar (c : Char) : List Char := if c = '%' then ['%', '%'] else [c]

/-- The template of a text: all its percent signs doubled. -/
def escaped (text : String) : String := String.ofList (text.toList.flatMap escapedChar)

section
variable {values : Fields}

/-! ## Where a template stands -/

/-- What is wrong with a piece does not depend on its place. -/
theorem behind_of_filled {piece : Piece} {fault : TemplateFault} (h : piece.filled values = .error fault)
    (before : Nat) : fault.behind before = fault := by
  cases piece with
  | placeholder key form unclosed =>
    simp only [Piece.filled] at h
    split at h
    · cases h; rfl
    · cases h
    · cases h
    · cases h; rfl
  | _ => cases h

theorem failsAt_behind {offset : Nat} {rest : List Char} {fault : TemplateFault} (h : FailsAt values offset rest fault)
    (before : Nat) : FailsAt values (before + offset) rest (fault.behind before) := by
  rcases h with ⟨piece, hpiece, hfilled⟩ | ⟨tail, rfl, hstray, rfl⟩
  · rw [behind_of_filled hfilled]
    exact Or.inl ⟨piece, hpiece, hfilled⟩
  · exact Or.inr ⟨tail, rfl, hstray, rfl⟩

/-- The place of a template is seen in its fault only. -/
theorem run_behind (before offset : Nat) (chars : List Char) :
    run values .literal (before + offset) chars = (run values .literal offset chars).mapError (.behind before) := by
  rcases run_cases values offset chars with
    ⟨pieces, texts, rfl, hfilled⟩ | ⟨done, texts, rest, fault, rfl, hdone, hfails⟩
  · rw [run_of_filled values hfilled, run_of_filled values hfilled]
    rfl
  · have hbehind := failsAt_behind hfails before
    rw [← Nat.add_assoc] at hbehind
    rw [run_of_failing values hdone hfails, run_of_failing values hdone hbehind]
    rfl

theorem run_append {first text : List Char} (h : run values .literal 0 first = .ok text) (second : List Char) :
    run values .literal 0 (first ++ second) =
      ((run values .literal 0 second).mapError (.behind (bytes first))).map fun tail => text ++ tail := by
  rcases run_cases values 0 first with ⟨pieces, texts, rfl, hfilled⟩ | ⟨done, texts, rest, fault, rfl, hdone, hfails⟩
  · rw [run_of_filled values hfilled] at h
    cases h
    rw [run_pieces values hfilled, Nat.zero_add, ← run_behind]
    rfl
  · rw [run_of_failing values hdone hfails] at h
    cases h

/-! ## Rendering without a demand -/

variable {template text : String}

theorem render_eq_ok : render false template values = .ok text ↔
    run values .literal 0 template.toList = .ok text.toList := by
  constructor
  · intro h
    cases hrun : run values .literal 0 template.toList with
    | error fault =>
      rw [render_of_run_error hrun] at h
      cases h
    | ok chars =>
      rw [render_of_run hrun] at h
      cases h
      rw [String.toList_ofList]
  · intro h
    rw [render_of_run h, String.ofList_toList]

theorem render_eq_error {fault : TemplateFault} : render false template values = .error (.template template fault) ↔
    run values .literal 0 template.toList = .error fault := by
  constructor
  · intro h
    cases hrun : run values .literal 0 template.toList with
    | error other =>
      rw [render_of_run_error hrun] at h
      cases h
      rfl
    | ok chars =>
      rw [render_of_run hrun] at h
      cases h
  · exact render_of_run_error

theorem render_append_eq_ok {first second all : String} (h : render false first values = .ok text) :
    render false (first ++ second) values = .ok all ↔
      ∃ tail, render false second values = .ok tail ∧ all = text ++ tail := by
  simp only [render_eq_ok, String.toList_append, run_append (render_eq_ok.mp h), Except.map_eq_ok,
    Except.mapError_eq_ok]
  constructor
  · intro hall
    obtain ⟨tail, htail, hall⟩ := hall
    refine ⟨String.ofList tail, by rw [String.toList_ofList, htail], ?_⟩
    rw [← String.toList_inj, ← hall, String.toList_append, String.toList_ofList]
  · intro hall
    obtain ⟨tail, htail, rfl⟩ := hall
    exact ⟨tail.toList, htail, String.toList_append.symm⟩

theorem run_escaped : ∀ (chars : List Char) (offset : Nat),
    run values .literal offset (chars.flatMap escapedChar) = .ok chars
  | [], _ => by rw [List.flatMap_nil, run]
  | c :: rest, offset => by
    rw [List.flatMap_cons, escapedChar]
    by_cases hpercent : c = '%'
    · subst hpercent
      change run values .literal offset (Piece.percent.chars ++ rest.flatMap escapedChar) = _
      rw [run_piece, run_escaped rest]
      rfl
    · rw [if_neg hpercent]
      change run values .literal offset ((Piece.plain c hpercent).chars ++ rest.flatMap escapedChar) = _
      rw [run_piece, run_escaped rest]
      simp [Piece.filled, Except.bind, Except.map]

end

/-- **Seams.** Behind a template that renders, another renders in one text with it exactly when it does by
itself, and to the same text; if it does not, it fails for the same reason, with its place counted from the
start of the first. A text whose percent signs are doubled renders to itself. -/
theorem rendering_composes (first second : String) (values : Fields) :
    (∀ text, render false first values = .ok text →
      (∀ all, render false (first ++ second) values = .ok all ↔
        ∃ tail, render false second values = .ok tail ∧ all = text ++ tail) ∧
      ∀ fault, render false second values = .error (.template second fault) →
        render false (first ++ second) values =
          .error (.template (first ++ second) (fault.behind first.utf8ByteSize))) ∧
    ∀ text, render false (escaped text) values = .ok text := by
  constructor
  · intro text htext
    refine ⟨fun all => render_append_eq_ok htext, fun fault hfault => ?_⟩
    have hbytes : bytes first.toList = first.utf8ByteSize := by rw [bytes, String.ofList_toList]
    rw [render_eq_error, String.toList_append, run_append (render_eq_ok.mp htext), render_eq_error.mp hfault, hbytes]
    rfl
  · intro text
    rw [render_eq_ok, escaped, String.toList_ofList]
    exact run_escaped text.toList 0

/-- At this seam stands a percent sign before what would be a placeholder of its own. -/
theorem escape_before_parenthesis : render false "é%(a)s%%" [("a", .str "%")] = .ok "é%%" ∧
    render false "é%(a)s%%(a)s" [("a", .str "%")] = .ok "é%%(a)s" ∧
    render false "é%(a)s%%(a)s%" [("a", .str "%")] =
      .error (.template "é%(a)s%%(a)s%" (.incomplete 13)) := by
  have hfirst : render false "é%(a)s%%" [("a", .str "%")] = .ok "é%%" := rfl
  refine ⟨hfirst, ?_, ?_⟩
  · have hseam := ((rendering_composes "é%(a)s%%" "(a)s" [("a", .str "%")]).1 "é%%" hfirst).1
    exact (hseam "é%%(a)s").mpr ⟨"(a)s", rfl, rfl⟩
  · have hseam := ((rendering_composes "é%(a)s%%" "(a)s%" [("a", .str "%")]).1 "é%%" hfirst).2
    exact hseam (.incomplete 4) rfl

end Template

end TestMatrix
