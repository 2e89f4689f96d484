import TestMatrix.Proofs.Outcomes
import TestMatrix.Template

/-!
# Templates as sequences of pieces

A template is a sequence of pieces: characters other than the percent sign, `%%`, `%(key)s` and
`%(key)d`. The reader goes over it once, character by character. Main statement: what it gives is the
pieces filled in one by one, and it stops at the first place where a piece cannot be filled or where a
percent sign begins no piece.
-/

namespace TestMatrix

namespace Template

inductive Form where
  | text
  | integer

def Form.letter : Form → Char
  | .text => 's'
  | .integer => 'd'

inductive Piece where
  | plain (c : Char) (ne_percent : c ≠ '%')
  | percent
  | placeholder (key : List Char) (form : Form) (unclosed : ')' ∉ key)

namespace Piece

def chars : Piece → List Char
  | .plain c _ => [c]
  | .percent => ['%', '%']
  | .placeholder key form _ => '%' :: '(' :: (key ++ [')', form.letter])

/-- What stands in place of a piece: for a placeholder the text of the value, or its integer part. -/
def filled (values : Fields) : Piece → Except TemplateFault String
  | .plain c _ => .ok (String.ofList [c])
  | .percent => .ok "%"
  | .placeholder key form _ =>
    match values.lookup (String.ofList key), form with
    | none, _ => .error (.missingKey (String.ofList key))
    | some value, .text => .ok value.display
    | some (.num number), .integer => .ok (String.ofList (Number.intChars number.truncated))
    | some other, .integer => .error (.notNumber other)

theorem chars_ne_nil (piece : Piece) : piece.chars ≠ [] := by
  cases piece <;> exact List.cons_ne_nil _ _

end Piece

def bytes (chars : List Char) : Nat := (String.ofList chars).utf8ByteSize

theorem bytes_nil : bytes [] = 0 := rfl

theorem bytes_append (first second : List Char) : bytes (first ++ second) = bytes first + bytes second := by
  rw [bytes, String.ofList_append, String.utf8ByteSize_append]
  rfl

theorem bytes_cons (c : Char) (rest : List Char) : bytes (c :: rest) = c.utf8Size + bytes rest := by
  rw [← List.singleton_append, bytes_append, bytes, ← String.singleton_eq_ofList, String.utf8ByteSize_singleton]

/-! ## One piece -/

section
variable (values : Fields)

theorem convert?_letter (key : List Char) (form : Form) (unclosed : ')' ∉ key) :
    convert? values (String.ofList key) form.letter = some ((Piece.placeholder key form unclosed).filled values) := by
  cases form with
  | text =>
    simp only [convert?, Form.letter, Piece.filled]
    cases values.lookup (String.ofList key) <;> rfl
  | integer =>
    simp only [convert?, Form.letter, Piece.filled]
    cases values.lookup (String.ofList key) with
    | none => rfl
    | some value => cases value <;> rfl

theorem convert?_eq_none {key : String} {letter : Char} (h : ∀ form : Form, letter ≠ form.letter) :
    convert? values key letter = none := by
  have htext : letter ≠ 's' := h .text
  have hinteger : letter ≠ 'd' := h .integer
  simp only [convert?]

/-- The characters of a key are taken up to the first closing parenthesis. -/
theorem run_key (start : Nat) (rest : List Char) : ∀ (key done : List Char) (offset : Nat), ')' ∉ key →
    run values (.key start done) offset (key ++ ')' :: rest) =
      run values (.conversion start (String.ofList (done.reverse ++ key))) (offset + bytes (key ++ [')'])) rest
  | [], done, offset, _ => by
    rw [List.nil_append, List.nil_append, List.append_nil, run]
    rfl
  | c :: key, done, offset, hclosed => by
    rw [List.mem_cons, not_or] at hclosed
    obtain ⟨hc, hkey⟩ := hclosed
    rw [List.cons_append, run]
    simp only [if_neg (Ne.symm hc)]
    rw [run_key start rest key _ _ hkey, List.reverse_cons, List.append_assoc, List.singleton_append,
      List.cons_append, bytes_cons, Nat.add_assoc]

theorem run_key_unclosed (start : Nat) : ∀ (rest done : List Char) (offset : Nat), ')' ∉ rest →
    run values (.key start done) offset rest = .error (.incomplete start)
  | [], _, _, _ => by rw [run]
  | c :: rest, done, offset, hclosed => by
    rw [List.mem_cons, not_or] at hclosed
    obtain ⟨hc, hrest⟩ := hclosed
    rw [run]
    simp only [if_neg (Ne.symm hc)]
    exact run_key_unclosed start rest _ _ hrest

/-- A piece is filled in and the reader goes on behind it. -/
theorem run_piece (piece : Piece) (offset : Nat) (rest : List Char) :
    run values .literal offset (piece.chars ++ rest) =
      (piece.filled values).bind fun text =>
        (run values .literal (offset + bytes piece.chars) rest).map fun tail => text.toList ++ tail := by
  cases piece with
  | plain c hc =>
    rw [Piece.chars, List.singleton_append, run, bytes_cons, bytes_nil]
    simp only [if_neg hc, Piece.filled, Except.bind, String.toList_ofList]
    rfl
  | percent =>
    rw [Piece.chars, List.cons_append, List.singleton_append, run]
    simp only [if_true]
    rw [run]
    simp only [if_true]
    rfl
  | placeholder key form unclosed =>
    have hchars : (Piece.placeholder key form unclosed).chars ++ rest =
        '%' :: '(' :: (key ++ ')' :: form.letter :: rest) := by simp [Piece.chars]
    have hbytes : bytes (Piece.placeholder key form unclosed).chars =
        '%'.utf8Size + ('('.utf8Size + (bytes (key ++ [')']) + form.letter.utf8Size)) := by
      simp only [Piece.chars, bytes_cons, bytes_append, bytes_nil]
      omega
    rw [hchars, hbytes, run]
    simp only [if_true]
    rw [run]
    simp only [if_true]
    rw [run_key values _ _ key [] _ unclosed, run]
    simp only [List.reverse_nil, List.nil_append, convert?_letter values key form unclosed]
    rw [if_neg (by decide)]
    cases (Piece.placeholder key form unclosed).filled values with
    | error fault => rfl
    | ok text =>
      simp only [Nat.add_assoc]
      rfl

/-! ## Places where no piece begins -/

theorem run_stray {tail : List Char} (hstray : ∀ piece : Piece, ¬ piece.chars <+: '%' :: tail) (offset : Nat) :
    run values .literal offset ('%' :: tail) = .error (.incomplete offset) := by
  rw [run]
  simp only [if_true]
  cases tail with
  | nil => rw [run]
  | cons c rest =>
    rw [run]
    by_cases hpercent : c = '%'
    · exact absurd ⟨rest, by rw [hpercent]; rfl⟩ (hstray .percent)
    · by_cases hopen : c = '('
      · subst hopen
        rw [if_neg hpercent, if_pos rfl]
        by_cases hclosed : ')' ∈ rest
        · obtain ⟨key, more, rfl, hkey⟩ := List.eq_append_cons_of_mem hclosed
          rw [run_key values offset more key [] _ hkey]
          cases more with
          | nil => rw [run]
          | cons letter more =>
            -- a conversion letter here would have made it a piece
            have hletter : ∀ form : Form, letter ≠ form.letter := by
              intro form hform
              refine hstray (.placeholder key form hkey) ⟨more, ?_⟩
              simp [Piece.chars, hform]
            rw [run]
            simp only [convert?_eq_none values hletter]
        · exact run_key_unclosed values offset rest [] _ hclosed
      · rw [if_neg hpercent, if_neg hopen]

/-- What follows begins with a piece that cannot be filled in, or with a percent sign that begins no piece. -/
def FailsAt (offset : Nat) (rest : List Char) (fault : TemplateFault) : Prop :=
  (∃ piece : Piece, piece.chars <+: rest ∧ piece.filled values = .error fault) ∨
    (∃ tail, rest = '%' :: tail ∧ (∀ piece : Piece, ¬ piece.chars <+: rest) ∧ fault = .incomplete offset)

theorem run_of_failsAt {offset : Nat} {rest : List Char} {fault : TemplateFault}
    (h : FailsAt values offset rest fault) : run values .literal offset rest = .error fault := by
  rcases h with ⟨piece, ⟨tail, rfl⟩, hfilled⟩ | ⟨tail, rfl, hstray, rfl⟩
  · rw [run_piece, hfilled]
    rfl
  · exact run_stray values hstray offset

/-! ## All pieces -/

/-- The texts that the pieces are filled with. -/
def FilledBy (pieces : List Piece) (texts : List String) : Prop :=
  List.Forall₂ (fun piece text => piece.filled values = .ok text) pieces texts

theorem run_pieces {pieces : List Piece} {texts : List String} (h : FilledBy values pieces texts) (rest : List Char) :
    ∀ offset : Nat, run values .literal offset (pieces.flatMap Piece.chars ++ rest) =
      (run values .literal (offset + bytes (pieces.flatMap Piece.chars)) rest).map fun tail =>
        texts.flatMap String.toList ++ tail := by
  induction h with
  | nil =>
    intro offset
    simp only [List.flatMap_nil, List.nil_append, bytes_nil, Nat.add_zero]
    cases run values .literal offset rest <;> rfl
  | @cons piece text pieces texts hpiece _ ih =>
    intro offset
    rw [List.flatMap_cons, List.append_assoc, run_piece, hpiece, Except.bind, ih, bytes_append, Nat.add_assoc]
    simp only [List.flatMap_cons, List.append_assoc]
    cases run values .literal (offset + (bytes piece.chars + bytes (pieces.flatMap Piece.chars))) rest <;> rfl

/-- The characters are a sequence of pieces, or they are one up to the first place that fails. -/
theorem run_cases (offset : Nat) (chars : List Char) :
    (∃ pieces texts, chars = pieces.flatMap Piece.chars ∧ FilledBy values pieces texts) ∨
      ∃ before texts rest fault, chars = before.flatMap Piece.chars ++ rest ∧ FilledBy values before texts ∧
        FailsAt values (offset + bytes (before.flatMap Piece.chars)) rest fault := by
  cases chars with
  | nil => exact Or.inl ⟨[], [], rfl, .nil⟩
  | cons c rest =>
    -- the rest behind a piece is shorter, and a character that begins no piece is a percent sign
    by_cases hpiece : ∃ piece : Piece, piece.chars <+: c :: rest
    · obtain ⟨piece, tail, htail⟩ := hpiece
      cases hfilled : piece.filled values with
      | error fault => exact Or.inr ⟨[], [], c :: rest, fault, rfl, .nil, Or.inl ⟨piece, ⟨tail, htail⟩, hfilled⟩⟩
      | ok text =>
        have hshorter : tail.length ≤ rest.length := by
          have hlength := congrArg List.length htail
          have hpos := List.length_pos_iff.mpr piece.chars_ne_nil
          rw [List.length_append, List.length_cons] at hlength
          omega
        rcases run_cases (offset + bytes piece.chars) tail with h | h
        · obtain ⟨pieces, texts, rfl, hpieces⟩ := h
          exact Or.inl ⟨piece :: pieces, text :: texts, by rw [← htail, List.flatMap_cons], .cons hfilled hpieces⟩
        · obtain ⟨before, texts, rest', fault, rfl, hbefore, hfails⟩ := h
          refine Or.inr ⟨piece :: before, text :: texts, rest', fault, ?_, .cons hfilled hbefore, ?_⟩
          · rw [← htail, List.flatMap_cons, List.append_assoc]
          · rwa [List.flatMap_cons, bytes_append, ← Nat.add_assoc]
    · have hpercent : c = '%' := by
        by_contra hc
        exact hpiece ⟨.plain c hc, rest, rfl⟩
      subst hpercent
      refine Or.inr ⟨[], [], '%' :: rest, .incomplete offset, rfl, .nil, Or.inr ⟨rest, rfl, ?_, rfl⟩⟩
      exact fun piece h => hpiece ⟨piece, h⟩
termination_by chars.length
decreasing_by exact Nat.lt_succ_of_le hshorter

theorem run_of_filled {pieces : List Piece} {texts : List String} (h : FilledBy values pieces texts) (offset : Nat) :
    run values .literal offset (pieces.flatMap Piece.chars) = .ok (texts.flatMap String.toList) := by
  have hrun := run_pieces values h [] offset
  rw [List.append_nil, run] at hrun
  rw [hrun]
  exact congrArg Except.ok (List.append_nil _)

theorem run_of_failing {before : List Piece} {texts : List String} {offset : Nat} {rest : List Char}
    {fault : TemplateFault} (hbefore : FilledBy values before texts)
    (hfails : FailsAt values (offset + bytes (before.flatMap Piece.chars)) rest fault) :
    run values .literal offset (before.flatMap Piece.chars ++ rest) = .error fault := by
  rw [run_pieces values hbefore, run_of_failsAt values hfails]
  rfl

end

section
variable {values : Fields} {template : String}

theorem render_of_run {chars : List Char} (h : run values .literal 0 template.toList = .ok chars) :
    render false template values = .ok (String.ofList chars) := by
  rw [render, fill, h]
  rfl

theorem render_of_run_error {fault : TemplateFault} (h : run values .literal 0 template.toList = .error fault) :
    render false template values = .error (.template template fault) := by
  rw [render, fill, h]
  rfl

theorem render_of_filled {pieces : List Piece} {texts : List String}
    (htemplate : template.toList = pieces.flatMap Piece.chars) (h : FilledBy values pieces texts) :
    render false template values = .ok (String.join texts) := by
  rw [render_of_run (by rw [htemplate, run_of_filled values h 0]), ← String.toList_join, String.ofList_toList]

theorem render_of_failing {before : List Piece} {texts : List String} {rest : List Char} {fault : TemplateFault}
    (htemplate : template.toList = before.flatMap Piece.chars ++ rest) (hbefore : FilledBy values before texts)
    (hfails : FailsAt values (bytes (before.flatMap Piece.chars)) rest fault) :
    render false template values = .error (.template template fault) :=
  render_of_run_error (by rw [htemplate, run_of_failing values hbefore (by rwa [Nat.zero_add])])

end

/-- **Templates.** Rendering gives a text exactly when the template is a sequence of pieces that can all be
filled in, and the text is what they are filled with, one after the other. It fails exactly when a
sequence of such pieces comes before a piece that cannot be filled in, or before a percent sign that
begins no piece; the fault is that of this piece, or gives the place of the percent sign in bytes. -/
theorem render_fills_pieces (template : String) (values : Fields) :
    (∀ text, render false template values = .ok text ↔ ∃ pieces texts,
      template.toList = pieces.flatMap Piece.chars ∧ FilledBy values pieces texts ∧ text = String.join texts) ∧
    ∀ defect, render false template values = .error defect ↔ ∃ before texts rest fault,
      template.toList = before.flatMap Piece.chars ++ rest ∧ FilledBy values before texts ∧
      FailsAt values (bytes (before.flatMap Piece.chars)) rest fault ∧ defect = .template template fault := by
  have hcases := run_cases values 0 template.toList
  simp only [Nat.zero_add] at hcases
  constructor
  · intro text
    constructor
    · intro h
      rcases hcases with ⟨pieces, texts, htemplate, hfilled⟩ | ⟨before, texts, rest, fault, htemplate, hbefore, hfails⟩
      · rw [render_of_filled htemplate hfilled] at h
        exact ⟨pieces, texts, htemplate, hfilled, (Except.ok.inj h).symm⟩
      · rw [render_of_failing htemplate hbefore hfails] at h
        cases h
    · intro h
      obtain ⟨pieces, texts, htemplate, hfilled, rfl⟩ := h
      exact render_of_filled htemplate hfilled
  · intro defect
    constructor
    · intro h
      rcases hcases with ⟨pieces, texts, htemplate, hfilled⟩ | ⟨before, texts, rest, fault, htemplate, hbefore, hfails⟩
      · rw [render_of_filled htemplate hfilled] at h
        cases h
      · rw [render_of_failing htemplate hbefore hfails] at h
        exact ⟨before, texts, rest, fault, htemplate, hbefore, hfails, (Except.error.inj h).symm⟩
    · intro h
      obtain ⟨before, texts, rest, fault, htemplate, hbefore, hfails, rfl⟩ := h
      exact render_of_failing htemplate hbefore hfails

-- a key may hold percent signs, `%%` is read before a parenthesis, and what is filled in is not read again
example : render false "%(a%%b)s%%(a)d" [("a%%b", .str "%(a)s")] = .ok "%(a)s%(a)d" := by rfl

end Template

end TestMatrix
