import TestMatrix.Json.Printer
import TestMatrix.Json.Reader
import TestMatrix.Proofs.Decimals
import TestMatrix.Proofs.Nodes

/-!
# Written documents

Two documents of one compact text are one document, the order of fields included. A quoted text ends
at its first quote that is not escaped, which the reader of quoted texts finds; a number ends at the
first character no number has; and the first character of a value tells its kind.
-/

namespace TestMatrix

/-! ## Quoted texts -/

theorem hexValue_hexDigit {n : Nat} (h : n < 16) : hexValue? (hexDigit n) = some n ∧ (hexDigit n).utf8Size = 1 := by
  have hall : ∀ n < 16, hexValue? (hexDigit n) = some n ∧ (hexDigit n).utf8Size = 1 := by decide
  exact hall n h

namespace QuotedText

/-- The text up to its closing quote, and what follows the quote. -/
def read (text : QuotedText) : List Char → Option (String × List Char)
  | [] => none
  | c :: rest =>
    match text.step .start c with
    | .next text => read text rest
    | .closed done => some (done, rest)
    | .refused .. => none

theorem read_next {text after : QuotedText} {c : Char} (h : text.step .start c = .next after) (rest : List Char) :
    read text (c :: rest) = read after rest := by
  rw [read, h]

theorem step_plain {c : Char} (hquote : c ≠ '"') (hslash : c ≠ '\\') (hcontrol : ¬ c.toNat < 32)
    (done : List Char) : step (.plain done) .start c = .next (.plain (c :: done)) := by
  rw [step, if_neg hcontrol]
  · exact hquote
  · exact hslash

theorem read_codePoint {c : Char} (h : c.toNat < 32) (done rest : List Char) :
    read (.plain done) (['\\', 'u', '0', '0', hexDigit (c.toNat / 16), hexDigit (c.toNat % 16)] ++ rest) =
      read (.plain (c :: done)) rest := by
  obtain ⟨hhigh, hhighSize⟩ := hexValue_hexDigit (n := c.toNat / 16) (by omega)
  obtain ⟨hlow, hlowSize⟩ := hexValue_hexDigit (n := c.toNat % 16) (by omega)
  have hunit : c.toNat / 16 * 16 + c.toNat % 16 = c.toNat := Nat.div_add_mod' c.toNat 16
  have hthird : step (.hex done none 2 (some 0)) .start (hexDigit (c.toNat / 16)) =
      .next (.hex done none 3 (some (c.toNat / 16))) := by
    simp [step, hhigh, hhighSize]
  have hfourth : step (.hex done none 3 (some (c.toNat / 16))) .start (hexDigit (c.toNat % 16)) =
      .next (.plain (c :: done)) := by
    -- a control character is no surrogate
    have htrail : ¬ (56320 ≤ c.toNat ∧ c.toNat ≤ 57343) := by omega
    have hlead : ¬ (55296 ≤ c.toNat ∧ c.toNat ≤ 56319) := by omega
    simp [step, codeUnit, hlow, hlowSize, hunit, htrail, hlead]
  calc read (.plain done) (['\\', 'u', '0', '0', hexDigit (c.toNat / 16), hexDigit (c.toNat % 16)] ++ rest)
      = read (.hex done none 2 (some 0)) (hexDigit (c.toNat / 16) :: hexDigit (c.toNat % 16) :: rest) := rfl
    _ = read (.plain (c :: done)) rest := by rw [read_next hthird, read_next hfourth]

/-- An escaped character is read back. -/
theorem read_escapeChar (c : Char) (done rest : List Char) :
    read (.plain done) (Json.escapeChar c ++ rest) = read (.plain (c :: done)) rest := by
  unfold Json.escapeChar
  split
  case h_8 hquote hslash _ _ _ _ _ =>
    by_cases hcontrol : c.toNat < 32
    · rw [if_pos hcontrol]
      exact read_codePoint hcontrol done rest
    · rw [if_neg hcontrol]
      exact read_next (step_plain hquote hslash hcontrol done) rest
  all_goals rfl

theorem read_escaped (text done rest : List Char) :
    read (.plain done) (text.flatMap Json.escapeChar ++ '"' :: rest) =
      some (String.ofList (done.reverse ++ text), rest) := by
  induction text generalizing done with
  | nil => simp [read, step]
  | cons c text ih =>
    rw [List.flatMap_cons, List.append_assoc, read_escapeChar, ih]
    simp

end QuotedText

namespace Json

theorem quoted_append_inj {a b : String} {r s : List Char} (h : quoted a ++ r = quoted b ++ s) :
    a = b ∧ r = s := by
  have hread (text : String) (after : List Char) :
      (QuotedText.plain []).read ((text.toList.flatMap escapeChar ++ ['"']) ++ after) = some (text, after) := by
    rw [List.append_assoc, List.singleton_append, QuotedText.read_escaped]
    simp
  have hbody : (a.toList.flatMap escapeChar ++ ['"']) ++ r = (b.toList.flatMap escapeChar ++ ['"']) ++ s :=
    (List.cons.inj h).2
  have hsome := hread a r
  rw [hbody, hread b s] at hsome
  have hpair := Option.some.inj hsome
  cases hpair
  exact ⟨rfl, rfl⟩

end Json

/-! ## Numbers -/

def isNumeric (c : Char) : Bool := c.isDigit || c == '-' || c == '+' || c == '.' || c == 'e'

/-- Whether a number may end here: nothing follows, or a character that no number has. -/
def EndsNumber (after : List Char) : Prop := ∀ c rest, after = c :: rest → isNumeric c = false

theorem endsNumber_cons {c : Char} (h : isNumeric c = false) (rest : List Char) : EndsNumber (c :: rest) := by
  intro c' rest' heq
  cases heq
  exact h

theorem takeWhile_numeric {text after : List Char} (htext : ∀ c ∈ text, isNumeric c = true)
    (hafter : EndsNumber after) : (text ++ after).takeWhile isNumeric = text := by
  rw [List.takeWhile_append_of_pos htext]
  cases after with
  | nil => simp
  | cons c rest => simp [hafter c rest rfl]

theorem AreDigits.isNumeric {digits : List Char} (h : AreDigits digits) :
    ∀ c ∈ digits, TestMatrix.isNumeric c = true := by
  intro c hc
  simp [TestMatrix.isNumeric, h c hc]

theorem Double.isNumeric_layout {digits : List Char} (h : AreDigits digits) (leading : Int) :
    ∀ c ∈ layout digits leading, isNumeric c = true := by
  unfold layout
  split
  · have htake : AreDigits (digits.take (leading.toNat + 1)) := h.of_subset (List.take_subset ..)
    have hdrop : AreDigits (digits.drop (leading.toNat + 1)) := h.of_subset (List.drop_subset ..)
    dsimp only
    rw [List.forall_mem_append, List.forall_mem_cons]
    refine ⟨(htake.append (.zeros _)).isNumeric, rfl, ?_⟩
    split
    · exact (AreDigits.zeros 1).isNumeric
    · exact hdrop.isNumeric
  · split
    · rw [List.forall_mem_cons, List.forall_mem_cons]
      exact ⟨rfl, rfl, ((AreDigits.zeros _).append h).isNumeric⟩
    · have htake : AreDigits (digits.take 1) := h.of_subset (List.take_subset ..)
      have hdrop : AreDigits (digits.drop 1) := h.of_subset (List.drop_subset ..)
      rw [List.forall_mem_append, List.forall_mem_append, List.forall_mem_cons, List.forall_mem_cons]
      refine ⟨⟨htake.isNumeric, ?_⟩, rfl, ?_, (AreDigits.toDigits _).isNumeric⟩
      · split
        · intro c hc; cases hc
        · exact List.forall_mem_cons.mpr ⟨rfl, hdrop.isNumeric⟩
      · split <;> rfl

theorem Number.isNumeric_chars (n : Number) : ∀ c ∈ n.chars, isNumeric c = true := by
  cases n with
  | int n =>
    intro c hc
    rcases mem_intChars hc with rfl | hdigit
    · rfl
    · simp [isNumeric, hdigit]
  | double x =>
    have hmagnitude : ∀ c ∈ x.magnitudeChars, isNumeric c = true := by
      unfold Double.magnitudeChars
      split
      · simp only [List.forall_mem_cons]
        exact ⟨rfl, rfl, rfl, List.forall_mem_nil _⟩
      · exact Double.isNumeric_layout (Double.significant_digits (.toDigits _)) _
    rw [chars, Double.chars_eq]
    split
    · exact List.forall_mem_cons.mpr ⟨rfl, hmagnitude⟩
    · exact hmagnitude

theorem Number.chars_append_inj {a b : Number} {r s : List Char} (hr : EndsNumber r) (hs : EndsNumber s)
    (h : a.chars ++ r = b.chars ++ s) : a = b ∧ r = s := by
  have htake : a.chars = b.chars := by
    rw [← takeWhile_numeric a.isNumeric_chars hr, h, takeWhile_numeric b.isNumeric_chars hs]
  rw [htake] at h
  exact ⟨Number.chars_injective htake, List.append_cancel_left h⟩

/-! ## Trees -/

namespace Json

/-- The kind of the value that begins with this character. -/
def kindAt? (c : Char) : Option String :=
  match c with
  | 'n' => some "null"
  | 't' | 'f' => some "bool"
  | '"' => some "string"
  | '[' => some "list"
  | '{' => some "dict"
  | _ => if c.isDigit || c == '-' then some "number" else none

theorem kindAt_digit {c : Char} (h : c.isDigit = true) : kindAt? c = some "number" := by
  unfold kindAt?
  split
  case h_7 => simp [h]
  all_goals cases h

theorem number_head (n : Number) : ∃ c rest, n.chars = c :: rest ∧ kindAt? c = some "number" := by
  cases n with
  | int n =>
    cases n with
    | ofNat n =>
      obtain ⟨c, rest, h⟩ := List.exists_cons_of_ne_nil (Nat.toDigits_ne_nil (n := n) (b := 10))
      exact ⟨c, rest, h, kindAt_digit (AreDigits.toDigits n c (by rw [h]; simp))⟩
    | negSucc n => exact ⟨'-', _, rfl, rfl⟩
  | double x =>
    rw [Number.chars, Double.chars_eq]
    split
    · exact ⟨'-', _, rfl, rfl⟩
    · obtain ⟨c, rest, h, hdigit⟩ := x.magnitudeChars_head
      exact ⟨c, rest, h, kindAt_digit hdigit⟩

theorem chars_head (value : Json) : ∃ c rest, value.chars = c :: rest ∧ kindAt? c = some value.typeName := by
  cases value with
  | null => exact ⟨_, _, rfl, rfl⟩
  | bool b => cases b <;> exact ⟨_, _, rfl, rfl⟩
  | num n => exact number_head n
  | str text => exact ⟨_, _, rfl, rfl⟩
  | arr items => exact ⟨_, _, rfl, rfl⟩
  | obj fields => exact ⟨_, _, rfl, rfl⟩

theorem typeName_of_chars {a b : Json} {r s : List Char} (h : a.chars ++ r = b.chars ++ s) :
    a.typeName = b.typeName := by
  obtain ⟨c, resta, ha, hc⟩ := a.chars_head
  obtain ⟨d, restb, hb, hd⟩ := b.chars_head
  rw [ha, hb] at h
  rw [(List.cons.inj h).1, hd] at hc
  exact (Option.some.inj hc).symm

/-- What follows an item: the bracket, or a comma and the other items. -/
def afterItem : List Json → List Char
  | [] => [']']
  | rest => ',' :: itemsChars rest

def afterField : Fields → List Char
  | [] => ['}']
  | rest => ',' :: fieldsChars rest

theorem itemsChars_cons (item : Json) (rest : List Json) :
    itemsChars (item :: rest) = item.chars ++ afterItem rest := by
  cases rest <;> rfl

theorem fieldsChars_cons (key : String) (value : Json) (rest : Fields) :
    fieldsChars ((key, value) :: rest) = quoted key ++ ':' :: (value.chars ++ afterField rest) := by
  cases rest <;> rfl

theorem endsNumber_afterItem (rest : List Json) (after : List Char) : EndsNumber (afterItem rest ++ after) := by
  cases rest <;> exact endsNumber_cons rfl _

theorem endsNumber_afterField (rest : Fields) (after : List Char) : EndsNumber (afterField rest ++ after) := by
  cases rest <;> exact endsNumber_cons rfl _

theorem chars_ne_mark {value : Json} {mark : Char} (hmark : kindAt? mark = none) (after rest : List Char) :
    value.chars ++ after ≠ mark :: rest := by
  intro h
  obtain ⟨c, text, hc, hkind⟩ := value.chars_head
  rw [hc] at h
  rw [(List.cons.inj h).1, hmark] at hkind
  cases hkind

/-- Whether the text of the value is the text of no other, whatever follows it. -/
def IsDetermined (value : Json) : Prop :=
  ∀ {other : Json} {r s : List Char}, EndsNumber r → EndsNumber s → value.chars ++ r = other.chars ++ s →
    value = other ∧ r = s

theorem item_append_inj {x y : Json} {xs ys : List Json} {r s : List Char} (hx : IsDetermined x)
    (h : itemsChars (x :: xs) ++ r = itemsChars (y :: ys) ++ s) :
    x = y ∧ afterItem xs ++ r = afterItem ys ++ s := by
  rw [itemsChars_cons, itemsChars_cons, List.append_assoc, List.append_assoc] at h
  exact hx (endsNumber_afterItem _ _) (endsNumber_afterItem _ _) h

theorem afterItem_append_inj {xs ys : List Json} {r s : List Char} (hitems : ∀ x ∈ xs, IsDetermined x)
    (h : afterItem xs ++ r = afterItem ys ++ s) : xs = ys ∧ r = s := by
  induction xs generalizing ys with
  | nil =>
    cases ys with
    | nil => exact ⟨rfl, (List.cons.inj h).2⟩
    | cons => cases (List.cons.inj h).1
  | cons x xs ih =>
    cases ys with
    | nil => cases (List.cons.inj h).1
    | cons y ys =>
      obtain ⟨rfl, hafter⟩ := item_append_inj (hitems x (by simp)) (List.cons.inj h).2
      obtain ⟨rfl, hrest⟩ := ih (fun z hz => hitems z (by simp [hz])) hafter
      exact ⟨rfl, hrest⟩

theorem itemsChars_append_inj {xs ys : List Json} {r s : List Char} (hitems : ∀ x ∈ xs, IsDetermined x)
    (h : itemsChars xs ++ r = itemsChars ys ++ s) : xs = ys ∧ r = s := by
  cases xs with
  | nil =>
    cases ys with
    | nil => exact ⟨rfl, (List.cons.inj h).2⟩
    | cons y ys =>
      rw [itemsChars_cons, List.append_assoc] at h
      exact absurd h.symm (chars_ne_mark rfl _ _)
  | cons x xs =>
    cases ys with
    | nil =>
      rw [itemsChars_cons, List.append_assoc] at h
      exact absurd h (chars_ne_mark rfl _ _)
    | cons y ys =>
      obtain ⟨rfl, hafter⟩ := item_append_inj (hitems x (by simp)) h
      obtain ⟨rfl, hrest⟩ := afterItem_append_inj (fun z hz => hitems z (by simp [hz])) hafter
      exact ⟨rfl, hrest⟩

theorem field_append_inj {key key' : String} {x y : Json} {fs gs : Fields} {r s : List Char} (hx : IsDetermined x)
    (h : fieldsChars ((key, x) :: fs) ++ r = fieldsChars ((key', y) :: gs) ++ s) :
    (key = key' ∧ x = y) ∧ afterField fs ++ r = afterField gs ++ s := by
  rw [fieldsChars_cons, fieldsChars_cons, List.append_assoc, List.append_assoc] at h
  obtain ⟨hkey, hcolon⟩ := quoted_append_inj h
  rw [List.cons_append, List.cons_append, List.append_assoc, List.append_assoc] at hcolon
  obtain ⟨hvalue, hafter⟩ := hx (endsNumber_afterField _ _) (endsNumber_afterField _ _) (List.cons.inj hcolon).2
  exact ⟨⟨hkey, hvalue⟩, hafter⟩

theorem afterField_append_inj {fs gs : Fields} {r s : List Char} (hfields : ∀ entry ∈ fs, IsDetermined entry.2)
    (h : afterField fs ++ r = afterField gs ++ s) : fs = gs ∧ r = s := by
  induction fs generalizing gs with
  | nil =>
    cases gs with
    | nil => exact ⟨rfl, (List.cons.inj h).2⟩
    | cons => cases (List.cons.inj h).1
  | cons entry fs ih =>
    cases gs with
    | nil => cases (List.cons.inj h).1
    | cons other gs =>
      obtain ⟨⟨hkey, hvalue⟩, hafter⟩ := field_append_inj (hfields entry (by simp)) (List.cons.inj h).2
      obtain ⟨rfl, hrest⟩ := ih (fun z hz => hfields z (by simp [hz])) hafter
      exact ⟨by rw [Prod.ext hkey hvalue], hrest⟩

theorem fieldsChars_append_inj {fs gs : Fields} {r s : List Char} (hfields : ∀ entry ∈ fs, IsDetermined entry.2)
    (h : fieldsChars fs ++ r = fieldsChars gs ++ s) : fs = gs ∧ r = s := by
  cases fs with
  | nil =>
    cases gs with
    | nil => exact ⟨rfl, (List.cons.inj h).2⟩
    | cons entry gs =>
      rw [fieldsChars_cons] at h
      cases (List.cons.inj h).1
  | cons entry fs =>
    cases gs with
    | nil =>
      rw [fieldsChars_cons] at h
      cases (List.cons.inj h).1
    | cons other gs =>
      obtain ⟨⟨hkey, hvalue⟩, hafter⟩ := field_append_inj (hfields entry (by simp)) h
      obtain ⟨rfl, hrest⟩ := afterField_append_inj (fun z hz => hfields z (by simp [hz])) hafter
      exact ⟨by rw [Prod.ext hkey hvalue], hrest⟩

theorem isDetermined (value : Json) : IsDetermined value := by
  induction value using children_induction with
  | step value ih =>
    intro other r s hr hs h
    -- the first character leaves one constructor for the other document
    have hkind := typeName_of_chars h
    cases value with
    | null =>
      cases other with
      | null => exact ⟨rfl, List.append_cancel_left h⟩
      | _ => simp [typeName] at hkind
    | bool a =>
      cases other with
      | bool b =>
        cases a <;> cases b
        · exact ⟨rfl, List.append_cancel_left h⟩
        · cases (List.cons.inj h).1
        · cases (List.cons.inj h).1
        · exact ⟨rfl, List.append_cancel_left h⟩
      | _ => simp [typeName] at hkind
    | num m =>
      cases other with
      | num n =>
        obtain ⟨rfl, hrest⟩ := Number.chars_append_inj hr hs h
        exact ⟨rfl, hrest⟩
      | _ => simp [typeName] at hkind
    | str a =>
      cases other with
      | str b =>
        obtain ⟨rfl, hrest⟩ := quoted_append_inj h
        exact ⟨rfl, hrest⟩
      | _ => simp [typeName] at hkind
    | arr xs =>
      cases other with
      | arr ys =>
        have hitems : ∀ x ∈ xs, IsDetermined x := by
          intro x hx
          obtain ⟨segment, hchild⟩ := item_mem_children hx
          exact ih segment x hchild
        obtain ⟨rfl, hrest⟩ := itemsChars_append_inj hitems (List.cons.inj h).2
        exact ⟨rfl, hrest⟩
      | _ => simp [typeName] at hkind
    | obj fs =>
      cases other with
      | obj gs =>
        have hfields : ∀ entry ∈ fs, IsDetermined entry.2 := fun entry h => ih _ _ (field_mem_children h)
        obtain ⟨rfl, hrest⟩ := fieldsChars_append_inj hfields (List.cons.inj h).2
        exact ⟨rfl, hrest⟩
      | _ => simp [typeName] at hkind

/-- The compact text of a document determines it. -/
theorem compact_injective : Function.Injective compact := by
  intro a b h
  have hchars : a.chars = b.chars := String.ofList_injective h
  refine (a.isDetermined (r := []) (s := []) ?_ ?_ ?_).1
  · intro c rest hnil; cases hnil
  · intro c rest hnil; cases hnil
  · rw [hchars]

end Json

end TestMatrix
