import TestMatrix.Json.Excerpt
import TestMatrix.Proofs.Outcomes
import TestMatrix.Proofs.Placeholders

/-!
# Where the caret stands

A syntax error is reported at the place the reader has come to, or past some bytes of the character it
looks at. So there is a line with this place in it, and the message shows the line. The column counts
bytes, and the caret is moved by as many characters. Main statement: it stands below the character that
holds the byte if all characters before that one have a single byte and the byte is its first, and
too far to the right in every other case.
-/

namespace TestMatrix

open Template (bytes bytes_nil bytes_cons)

/-! ## Where errors are reported -/

namespace Position

/-- Before a character that is read here, or past some of its bytes. -/
def IsAt (position : Position) (c : Char) (place : Position) : Prop :=
  place = position ∨ ∃ count ≤ c.utf8Size, place = position.advance c count

/-- A place in a text that begins here, its end included. -/
def IsIn : Position → List Char → Position → Prop
  | position, [], place => place = position
  | position, c :: rest, place => position.IsAt c place ∨ IsIn (position.past c) rest place

theorem isAt_into (position : Position) (c : Char) : position.IsAt c (position.into c) :=
  Or.inr ⟨1, c.utf8Size_pos, rfl⟩

theorem advance_newline (position : Position) (count : Nat) :
    position.advance '\n' count = ⟨position.line + 1, 0⟩ := rfl

theorem advance_of_ne {c : Char} (h : c ≠ '\n') (position : Position) (count : Nat) :
    position.advance c count = ⟨position.line, position.column + count⟩ := if_neg h

end Position

theorem QuotedText.place_of_codeUnit {done : List Char} {lead : Option Nat} {unit : Nat} {position place : Position}
    {fault : SyntaxFault} (h : codeUnit done lead unit position = .refused fault place) : place = position := by
  simp only [codeUnit] at h
  split at h
  · split at h
    · cases h; rfl
    · split at h <;> cases h
  · split at h
    · cases h
    · cases h; rfl

theorem QuotedText.place_of_step {text : QuotedText} {position place : Position} {c : Char} {fault : SyntaxFault}
    (h : text.step position c = .refused fault place) : position.IsAt c place := by
  cases text with
  | plain done =>
    simp only [step] at h
    split at h
    · cases h
    · cases h
    · split at h
      · cases h; exact position.isAt_into c
      · cases h
  | escape done =>
    simp only [step] at h
    split at h
    · cases h
    · split at h
      · cases h
      · cases h; exact position.isAt_into c
  | hex done lead count value =>
    simp only [step] at h
    split at h
    · cases h
    · next hfull =>
      -- the escape ends inside this character, or with it
      have hstop : position.IsAt c (position.advance c (4 - count)) := Or.inr ⟨4 - count, by omega, rfl⟩
      split at h
      · rw [place_of_codeUnit h]; exact hstop
      · cases h; exact hstop
  | afterLead done lead =>
    simp only [step] at h
    split at h
    · cases h
    · cases h; exact position.isAt_into c
  | afterSlash done lead =>
    simp only [step] at h
    split at h
    · cases h
    · cases h; exact position.isAt_into c

namespace Json

/-- Errors at a character are reported there. -/
def ReportsAt {α : Type} (position : Position) (c : Char) (outcome : Except SyntaxError α) : Prop :=
  ∀ error, outcome = .error error → position.IsAt c error.position

section
variable {α : Type} {position : Position} {c : Char}

theorem reportsAt_ok (a : α) : ReportsAt position c (.ok a) := by
  intro error h
  cases h

theorem reportsAt_error {place : Position} (h : position.IsAt c place) (fault : SyntaxFault) :
    ReportsAt position c (.error ⟨fault, place⟩ : Except SyntaxError α) := by
  intro error herror
  cases herror
  exact h

theorem reportsAt_into (fault : SyntaxFault) :
    ReportsAt position c (.error ⟨fault, position.into c⟩ : Except SyntaxError α) :=
  reportsAt_error (position.isAt_into c) fault

theorem reportsAt_ite {p : Prop} [Decidable p] {yes no : Except SyntaxError α} (hyes : ReportsAt position c yes)
    (hno : ReportsAt position c no) : ReportsAt position c (if p then yes else no) := by
  split
  · exact hyes
  · exact hno

variable (frames : List Frame)

theorem reportsAt_startValue : ReportsAt position c (startValue position frames c) := by
  unfold startValue
  split
  case h_1 | h_2 => exact reportsAt_ite (reportsAt_ok _) (reportsAt_into _)
  case h_8 =>
    split
    · exact reportsAt_ok _
    · exact reportsAt_into _
  all_goals exact reportsAt_ok _

theorem reportsAt_afterValue (mode : Mode) : ReportsAt position c (afterValue position frames mode c) := by
  unfold afterValue
  split
  · split
    · exact reportsAt_ok _
    · exact reportsAt_ok _
    · exact reportsAt_into _
  · split
    · exact reportsAt_ok _
    · exact reportsAt_ok _
    · exact reportsAt_into _
  · exact reportsAt_into _

theorem reportsAt_transition (mode : Mode) : ReportsAt position c (transition position frames mode c) := by
  cases mode with
  | value => exact reportsAt_ite (reportsAt_ok _) (reportsAt_startValue _)
  | firstItem =>
    apply reportsAt_ite (reportsAt_ok _)
    exact reportsAt_ite (reportsAt_ok _) (reportsAt_startValue _)
  | item done =>
    apply reportsAt_ite (reportsAt_ok _)
    exact reportsAt_ite (reportsAt_into _) (reportsAt_startValue _)
  | firstKey =>
    apply reportsAt_ite (reportsAt_ok _)
    apply reportsAt_ite (reportsAt_ok _)
    exact reportsAt_ite (reportsAt_ok _) (reportsAt_into _)
  | key done =>
    apply reportsAt_ite (reportsAt_ok _)
    apply reportsAt_ite (reportsAt_into _)
    exact reportsAt_ite (reportsAt_ok _) (reportsAt_into _)
  | colon done key =>
    apply reportsAt_ite (reportsAt_ok _)
    exact reportsAt_ite (reportsAt_ok _) (reportsAt_into _)
  | keyText done text | text text =>
    simp only [transition]
    split
    · exact reportsAt_ok _
    · exact reportsAt_ok _
    · next hrefused => exact reportsAt_error (QuotedText.place_of_step hrefused) _
  | word rest value =>
    simp only [transition]
    split
    · exact reportsAt_into _
    · exact reportsAt_ite (reportsAt_ok _) (reportsAt_into _)
    · exact reportsAt_ite (reportsAt_ok _) (reportsAt_into _)
  | number negative literal =>
    simp only [transition]
    split
    · exact reportsAt_ok _
    · exact reportsAt_into _
    · split
      · exact reportsAt_error (Or.inl rfl) _
      · exact reportsAt_ite (reportsAt_ok _) (reportsAt_afterValue _ _)
  | afterItem done | afterField done | finished done =>
    exact reportsAt_ite (reportsAt_ok _) (reportsAt_afterValue _ _)

end

theorem place_of_finish {reading : Reading} {error : SyntaxError} (h : reading.finish = .error error) :
    error.position = reading.position := by
  obtain ⟨fault, -, rfl⟩ := Except.mapError_eq_error.mp h
  rfl

theorem place_of_run {chars : List Char} {reading : Reading} {error : SyntaxError}
    (h : reading.run chars = .error error) : reading.position.IsIn chars error.position := by
  induction chars generalizing reading with
  | nil => exact place_of_finish h
  | cons c rest ih =>
    rcases Except.bind_eq_error.mp h with hstep | ⟨next, hstep, hrest⟩
    · exact Or.inl (reportsAt_transition _ _ error (Except.map_eq_error.mp hstep))
    · obtain ⟨after, -, rfl⟩ := Except.map_eq_ok.mp hstep
      exact Or.inr (ih hrest)

theorem place_of_parse {text : String} {error : SyntaxError} (h : parse text = .error error) :
    Position.start.IsIn text.toList error.position := place_of_run h

end Json

/-! ## Lines -/

/-- A line of a text by the number of lines above it, empty if the text has fewer. -/
def lineBelow (chars : List Char) (above : Nat) : List Char := ((splitLines chars)[above]?).getD []

theorem lineBelow_newline (rest : List Char) (above : Nat) :
    lineBelow ('\n' :: rest) (above + 1) = lineBelow rest above := rfl

theorem lineBelow_cons {c : Char} (h : c ≠ '\n') (rest : List Char) (above : Nat) :
    lineBelow (c :: rest) above = if above = 0 then c :: lineBelow rest 0 else lineBelow rest above := by
  unfold lineBelow
  rw [splitLines, if_neg h]
  cases splitLines rest with
  | nil => cases above <;> simp
  | cons line others => cases above <;> simp

/-- A place in a text lies in one of its lines: the first goes on behind the column where the text
begins, the others begin at their column zero. -/
theorem Position.IsIn.line {position place : Position} {chars : List Char} (h : position.IsIn chars place) :
    ∃ above, place.line = position.line + above ∧
      place.column ≤ (if above = 0 then position.column else 0) + bytes (lineBelow chars above) := by
  induction chars generalizing position with
  | nil =>
    obtain rfl : place = position := h
    exact ⟨0, rfl, Nat.le_add_right ..⟩
  | cons c rest ih =>
    by_cases hc : c = '\n'
    · subst hc
      rcases h with (rfl | ⟨count, -, rfl⟩) | hrest
      · exact ⟨0, rfl, Nat.le_add_right ..⟩
      · exact ⟨1, rfl, Nat.zero_le _⟩
      · obtain ⟨above, hline, hcolumn⟩ := ih hrest
        simp only [past, advance_newline] at hline hcolumn
        refine ⟨above + 1, by omega, ?_⟩
        rw [lineBelow_newline]
        simpa using hcolumn
    · rcases h with (rfl | ⟨count, hcount, rfl⟩) | hrest
      · exact ⟨0, rfl, Nat.le_add_right ..⟩
      · refine ⟨0, by rw [advance_of_ne hc]; rfl, ?_⟩
        rw [advance_of_ne hc, lineBelow_cons hc, if_pos rfl, if_pos rfl, bytes_cons]
        dsimp only
        omega
      · obtain ⟨above, hline, hcolumn⟩ := ih hrest
        simp only [past, advance_of_ne hc] at hline hcolumn
        refine ⟨above, hline, ?_⟩
        rw [lineBelow_cons hc]
        split
        · next hfirst =>
          rw [if_pos hfirst, hfirst] at hcolumn
          rw [bytes_cons]
          omega
        · next hlater => rwa [if_neg hlater] at hcolumn

/-- An error with a byte of its line points into a line that the text has. -/
theorem SyntaxError.exists_line {text : String} {error : SyntaxError} (h : Json.parse text = .error error)
    (hcolumn : 1 ≤ error.position.column) : 1 ≤ error.position.line ∧
      ∃ line, error.line? text = some line ∧ error.position.column ≤ bytes line := by
  obtain ⟨above, hline, hbytes⟩ := (Json.place_of_parse h).line
  -- the text begins at column zero, so no line goes on behind another column
  simp only [Position.start, ite_self, Nat.zero_add] at hline hbytes
  have habove : error.position.line - 1 = above := by omega
  refine ⟨by omega, ?_⟩
  rw [line?, habove]
  unfold lineBelow at hbytes
  cases hget : (splitLines text.toList)[above]? with
  | none =>
    rw [hget, Option.getD_none, bytes_nil] at hbytes
    omega
  | some line =>
    rw [hget, Option.getD_some] at hbytes
    exact ⟨line, rfl, hbytes⟩

/-! ## Characters and bytes -/

theorem exists_character {byte : Nat} {line : List Char} (hpos : 1 ≤ byte) (hbyte : byte ≤ bytes line) :
    ∃ before c after, line = before ++ c :: after ∧ bytes before < byte ∧ byte ≤ bytes before + c.utf8Size := by
  induction line generalizing byte with
  | nil => rw [bytes_nil] at hbyte; omega
  | cons c rest ih =>
    rw [bytes_cons] at hbyte
    by_cases hfirst : byte ≤ c.utf8Size
    · exact ⟨[], c, rest, rfl, hpos, by rw [bytes_nil, Nat.zero_add]; exact hfirst⟩
    · obtain ⟨before, d, after, rfl, hbefore, hd⟩ := @ih (byte - c.utf8Size) (by omega) (by omega)
      exact ⟨c :: before, d, after, rfl, by rw [bytes_cons]; omega, by rw [bytes_cons]; omega⟩

theorem length_le_bytes (chars : List Char) : chars.length ≤ bytes chars := by
  induction chars with
  | nil => exact Nat.zero_le _
  | cons c rest ih =>
    have hpos := c.utf8Size_pos
    rw [bytes_cons, List.length_cons]
    omega

theorem bytes_eq_length_iff (chars : List Char) : bytes chars = chars.length ↔ ∀ c ∈ chars, c.utf8Size = 1 := by
  induction chars with
  | nil => simp [bytes_nil]
  | cons c rest ih =>
    have hpos := c.utf8Size_pos
    have hle := length_le_bytes rest
    rw [List.forall_mem_cons, ← ih, bytes_cons, List.length_cons]
    omega

/-! ## The caret -/

namespace SyntaxError

/-- The message, a line without the white space at its end, and a caret with this many blanks before it. -/
def shown (error : SyntaxError) (line : List Char) (indent : Nat) : String :=
  String.ofList (error.message.toList ++ '\n' :: trimEnd line ++ '\n' :: (List.replicate indent ' ' ++ ['^']))

theorem shown_inj {error : SyntaxError} {line : List Char} {indent other : Nat} :
    error.shown line indent = error.shown line other ↔ indent = other := by
  constructor
  · intro h
    -- all but the blanks before the caret is the same on both sides
    simpa [shown] using congrArg String.length h
  · rintro rfl
    rfl

theorem excerpt_eq {error : SyntaxError} {text : String} {line : List Char} (h : error.line? text = some line) :
    error.excerpt text = error.shown line (error.position.column - 1) := by
  unfold excerpt
  rw [h]
  rfl

/-- **The caret.** An error that is reported at a byte of a line comes with this line, and the byte is one of
a character there. The caret never stands to the left of this character, and it stands below it
exactly if the byte is its first and each character before it is a single byte. -/
theorem caret_below_character_iff {text : String} {error : SyntaxError} (h : Json.parse text = .error error)
    (hcolumn : 1 ≤ error.position.column) :
    1 ≤ error.position.line ∧ ∃ before c after,
      (splitLines text.toList)[error.position.line - 1]? = some (before ++ c :: after) ∧
      bytes before < error.position.column ∧ error.position.column ≤ bytes before + c.utf8Size ∧
      error.excerpt text = error.shown (before ++ c :: after) (error.position.column - 1) ∧
      before.length ≤ error.position.column - 1 ∧
      (error.excerpt text = error.shown (before ++ c :: after) before.length ↔
        (∀ d ∈ before, d.utf8Size = 1) ∧ error.position.column = bytes before + 1) := by
  obtain ⟨hline, line, hget, hbytes⟩ := exists_line h hcolumn
  obtain ⟨before, c, after, rfl, hbefore, hc⟩ := exists_character hcolumn hbytes
  have hlength := length_le_bytes before
  refine ⟨hline, before, c, after, hget, hbefore, hc, excerpt_eq hget, by omega, ?_⟩
  rw [excerpt_eq hget, shown_inj, ← bytes_eq_length_iff]
  omega

/-- The second comma has four characters before it, and the caret stands below it. -/
theorem doubled_comma_pointed_at :
    Json.parse "[1,\n  2,,]" = .error ⟨.expectedValue, ⟨2, 5⟩⟩ ∧ 1 ≤ 5 ∧
    excerpt ⟨.expectedValue, ⟨2, 5⟩⟩ "[1,\n  2,,]" = "expected value at line 2 column 5\n  2,,]\n    ^" := by
  have hparse : Json.parse "[1,\n  2,,]" = .error ⟨.expectedValue, ⟨2, 5⟩⟩ := rfl
  obtain ⟨-, before, c, after, hget, -, -, hexcerpt, -⟩ := caret_below_character_iff hparse (by decide)
  have hline : some "  2,,]".toList = some (before ++ c :: after) := hget
  refine ⟨hparse, by decide, ?_⟩
  rw [hexcerpt, ← Option.some.inj hline]
  rfl

/-- The second comma has five characters before it, one of them of two bytes, and the caret stands below the
bracket behind it. -/
theorem accent_moves_caret :
    Json.parse "[\"é\",,]" = .error ⟨.expectedValue, ⟨1, 7⟩⟩ ∧
    (splitLines "[\"é\",,]".toList)[1 - 1]? = some ("[\"é\",".toList ++ ',' :: [']']) ∧
    bytes "[\"é\",".toList < 7 ∧ 7 ≤ bytes "[\"é\",".toList + ','.utf8Size ∧
    excerpt ⟨.expectedValue, ⟨1, 7⟩⟩ "[\"é\",,]" = "expected value at line 1 column 7\n[\"é\",,]\n      ^" ∧
    excerpt ⟨.expectedValue, ⟨1, 7⟩⟩ "[\"é\",,]" ≠
      shown ⟨.expectedValue, ⟨1, 7⟩⟩ ("[\"é\",".toList ++ ',' :: [']']) "[\"é\",".toList.length := by
  have hget : line? ⟨.expectedValue, ⟨1, 7⟩⟩ "[\"é\",,]" = some ("[\"é\",".toList ++ ',' :: [']']) := rfl
  refine ⟨rfl, hget, by decide, by decide, rfl, ?_⟩
  rw [excerpt_eq hget, Ne, shown_inj]
  decide

end SyntaxError

end TestMatrix
