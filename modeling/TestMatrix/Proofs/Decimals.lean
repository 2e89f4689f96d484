import Mathlib.Tactic.FieldSimp
import Mathlib.Tactic.Positivity
import Mathlib.Tactic.Ring
import Mathlib.Tactic.Linarith
import Mathlib.Algebra.Order.Field.Power
import Mathlib.Data.Rat.Cast.Order
import TestMatrix.Number.Basic

/-!
# Written numbers

Two numbers of one text are one number. The digits of an integer determine it. The text of a double
has a value, and that value lies among the rationals that round to the double; different magnitudes
have no such rational in common.
-/

namespace TestMatrix

/-- Digits alone. -/
def AreDigits (digits : List Char) : Prop := ∀ c ∈ digits, c.isDigit = true

namespace AreDigits

theorem toDigits (n : Nat) : AreDigits (Nat.toDigits 10 n) :=
  fun _ h => Nat.isDigit_of_mem_toDigits (by decide) (by decide) h

theorem zeros (n : Nat) : AreDigits (List.replicate n '0') := by
  intro c hc
  rw [List.eq_of_mem_replicate hc]; rfl

theorem append {a b : List Char} (ha : AreDigits a) (hb : AreDigits b) : AreDigits (a ++ b) := by
  intro c hc
  rcases List.mem_append.mp hc with h | h
  · exact ha c h
  · exact hb c h

theorem of_subset {a b : List Char} (hb : AreDigits b) (h : a ⊆ b) : AreDigits a := fun c hc => hb c (h hc)

theorem ne {digits : List Char} (h : AreDigits digits) (mark : Char) (hmark : mark.isDigit = false) :
    ∀ c ∈ digits, c ≠ mark := by
  rintro c hc rfl
  rw [h c hc] at hmark; cases hmark

end AreDigits

/-! ## The value of a text -/

/-- What stands before and after the first such character. -/
def cutAt (mark : Char) : List Char → List Char × List Char
  | [] => ([], [])
  | c :: rest => if c = mark then ([], rest) else (c :: (cutAt mark rest).1, (cutAt mark rest).2)

theorem cutAt_mark {mark : Char} {front : List Char} (h : ∀ c ∈ front, c ≠ mark) (back : List Char) :
    cutAt mark (front ++ mark :: back) = (front, back) := by
  induction front with
  | nil => simp [cutAt]
  | cons c rest ih =>
    rw [List.cons_append, cutAt, if_neg (h c (by simp)), ih fun d hd => h d (by simp [hd])]

theorem cutAt_of_ne {mark : Char} {text : List Char} (h : ∀ c ∈ text, c ≠ mark) :
    cutAt mark text = (text, []) := by
  induction text with
  | nil => rfl
  | cons c rest ih => rw [cutAt, if_neg (h c (by simp)), ih fun d hd => h d (by simp [hd])]

namespace Decimal

def value (d : Decimal) : ℚ := d.digits * (10 : ℚ) ^ d.exponent

/-- An exponent with its sign. -/
def signedExponent : List Char → Int
  | '-' :: digits => -(Nat.ofDigitChars 10 digits 0 : Int)
  | '+' :: digits => Nat.ofDigitChars 10 digits 0
  | _ => 0

/-- The digits on both sides of the point count as one number, whose last digit stands as many places
behind the point as there are digits there. -/
def ofParts (whole fraction : List Char) (exponent : Int) : Decimal :=
  ⟨Nat.ofDigitChars 10 (whole ++ fraction) 0, exponent - fraction.length⟩

/-- The decimal of a text without sign: digits around a point, then perhaps an exponent. -/
def ofText (text : List Char) : Decimal :=
  let (body, exponent) := cutAt 'e' text
  let (whole, fraction) := cutAt '.' body
  ofParts whole fraction (signedExponent exponent)

section
variable {whole fraction : List Char} (hw : AreDigits whole) (hf : AreDigits fraction)

include hw hf in
theorem ne_mark_of_digits : ∀ c ∈ whole ++ '.' :: fraction, c ≠ 'e' := by
  intro c hc
  rcases List.mem_append.mp hc with h | h
  · exact hw.ne 'e' rfl c h
  · rcases List.mem_cons.mp h with rfl | h
    · decide
    · exact hf.ne 'e' rfl c h

include hw hf in
theorem ofText_point : ofText (whole ++ '.' :: fraction) = ofParts whole fraction 0 := by
  unfold ofText
  rw [cutAt_of_ne (ne_mark_of_digits hw hf)]
  simp only [cutAt_mark (hw.ne '.' rfl)]
  rfl

include hw hf in
theorem ofText_point_exponent (exponent : List Char) :
    ofText (whole ++ '.' :: fraction ++ 'e' :: exponent) =
      ofParts whole fraction (signedExponent exponent) := by
  unfold ofText
  rw [cutAt_mark (ne_mark_of_digits hw hf)]
  simp only [cutAt_mark (hw.ne '.' rfl)]

include hw in
theorem ofText_exponent (exponent : List Char) :
    ofText (whole ++ 'e' :: exponent) = ofParts whole [] (signedExponent exponent) := by
  unfold ofText
  rw [cutAt_mark (hw.ne 'e' rfl)]
  simp only [cutAt_of_ne (hw.ne '.' rfl)]

end

theorem value_shift (digits places : Nat) (exponent : Int) :
    value ⟨digits * 10 ^ places, exponent⟩ = value ⟨digits, exponent + places⟩ := by
  unfold value
  rw [zpow_add₀ (by norm_num), zpow_natCast]
  push_cast
  ring

theorem ofDigitChars_zeros (digits : List Char) (n : Nat) :
    Nat.ofDigitChars 10 (digits ++ List.replicate n '0') 0 = Nat.ofDigitChars 10 digits 0 * 10 ^ n := by
  rw [Nat.ofDigitChars_append, Nat.ofDigitChars_replicate_zero, Nat.mul_comm]

theorem zeros_ofDigitChars (n : Nat) (digits : List Char) :
    Nat.ofDigitChars 10 (List.replicate n '0' ++ digits) 0 = Nat.ofDigitChars 10 digits 0 := by
  rw [Nat.ofDigitChars_append, Nat.ofDigitChars_replicate_zero, Nat.mul_zero]

theorem signedExponent_sign (n : Int) :
    signedExponent ((if n < 0 then '-' else '+') :: Nat.toDigits 10 n.natAbs) = n := by
  by_cases h : n < 0
  · rw [if_pos h]
    simp only [signedExponent, Nat.ofDigitChars_ten_toDigits]
    omega
  · rw [if_neg h]
    simp only [signedExponent, Nat.ofDigitChars_ten_toDigits]
    omega

end Decimal

namespace Double

section
variable {digits : List Char} (hdigits : AreDigits digits)

include hdigits in
theorem value_positional {width : Nat} {leading : Int} (hwidth : (width : Int) = leading + 1) :
    (Decimal.ofText (digits.take width ++ List.replicate (width - (digits.take width).length) '0' ++
      '.' :: (if (digits.drop width).isEmpty then ['0'] else digits.drop width))).value =
      Decimal.value ⟨Nat.ofDigitChars 10 digits 0, leading + 1 - digits.length⟩ := by
  by_cases hshort : digits.length ≤ width
  · have hzero : AreDigits ['0'] := .zeros 1
    have hzeros : List.replicate (width - digits.length) '0' ++ ['0'] =
        List.replicate (width - digits.length + 1) '0' := List.replicate_succ'.symm
    rw [List.take_of_length_le hshort, List.drop_of_length_le hshort, List.isEmpty_nil, if_pos rfl,
      Decimal.ofText_point (hdigits.append (.zeros _)) hzero, Decimal.ofParts, List.append_assoc, hzeros,
      Decimal.ofDigitChars_zeros, Decimal.value_shift]
    congr 2
    simp
    omega
  · have hdrop : (digits.drop width).isEmpty = false := by
      rw [List.isEmpty_eq_false_iff, ne_eq, List.drop_eq_nil_iff]; omega
    have htake : (digits.take width).length = width := List.length_take_of_le (by omega)
    rw [hdrop, if_neg (by decide), htake, Nat.sub_self, List.replicate_zero, List.append_nil,
      Decimal.ofText_point (hdigits.of_subset (List.take_subset ..)) (hdigits.of_subset (List.drop_subset ..)),
      Decimal.ofParts, List.take_append_drop, List.length_drop]
    congr 2
    omega

include hdigits in
theorem value_behind_point {leading : Int} (hleading : leading < 0) :
    (Decimal.ofText ('0' :: '.' :: (List.replicate ((-leading).toNat - 1) '0' ++ digits))).value =
      Decimal.value ⟨Nat.ofDigitChars 10 digits 0, leading + 1 - digits.length⟩ := by
  have hzero : AreDigits ['0'] := .zeros 1
  have htext := Decimal.ofText_point hzero ((AreDigits.zeros ((-leading).toNat - 1)).append hdigits)
  rw [List.singleton_append] at htext
  rw [htext, Decimal.ofParts, List.singleton_append, ← List.cons_append, ← List.replicate_succ,
    Decimal.zeros_ofDigitChars, List.length_append, List.length_replicate]
  congr 2
  omega

include hdigits in
theorem value_exponent (hne : digits ≠ []) (leading : Int) :
    (Decimal.ofText (digits.take 1 ++ (if digits.length ≤ 1 then [] else '.' :: digits.drop 1) ++
      'e' :: (if leading < 0 then '-' else '+') :: Nat.toDigits 10 leading.natAbs)).value =
      Decimal.value ⟨Nat.ofDigitChars 10 digits 0, leading + 1 - digits.length⟩ := by
  obtain ⟨first, rest, rfl⟩ := List.exists_cons_of_ne_nil hne
  have hfirst : AreDigits [first] := hdigits.of_subset (by simp)
  have hrest : AreDigits rest := hdigits.of_subset (by simp)
  cases rest with
  | nil =>
    have htext := Decimal.ofText_exponent hfirst
      ((if leading < 0 then '-' else '+') :: Nat.toDigits 10 leading.natAbs)
    rw [Decimal.signedExponent_sign, Decimal.ofParts] at htext
    rw [if_pos (by simp), List.append_nil, List.take_succ_cons, List.take_zero, htext]
    congr 2
    simp
  | cons second rest =>
    have htext := Decimal.ofText_point_exponent hfirst hrest
      ((if leading < 0 then '-' else '+') :: Nat.toDigits 10 leading.natAbs)
    rw [Decimal.signedExponent_sign, Decimal.ofParts] at htext
    rw [if_neg (by simp), List.take_succ_cons, List.take_zero, List.drop_succ_cons, List.drop_zero, htext,
      List.singleton_append]
    congr 2
    have hlength : (first :: second :: rest).length = (second :: rest).length + 1 := rfl
    omega

include hdigits in
/-- Wherever the point is placed, the text has the value of the digits with the first of them at the
leading place. -/
theorem value_layout (hne : digits ≠ []) (leading : Int) :
    (Decimal.ofText (layout digits leading)).value =
      Decimal.value ⟨Nat.ofDigitChars 10 digits 0, leading + 1 - digits.length⟩ := by
  unfold layout
  by_cases hwhole : 0 ≤ leading ∧ leading ≤ 15
  · rw [if_pos hwhole]
    exact value_positional hdigits (by omega)
  · rw [if_neg hwhole]
    by_cases hsmall : -5 ≤ leading ∧ leading < 0
    · rw [if_pos hsmall]
      exact value_behind_point hdigits hsmall.2
    · rw [if_neg hsmall]
      exact value_exponent hdigits hne leading

end

theorem layout_head {digits : List Char} (hdigits : AreDigits digits) (hne : digits ≠ []) (leading : Int) :
    ∃ c rest, layout digits leading = c :: rest ∧ c.isDigit = true := by
  obtain ⟨first, rest, rfl⟩ := List.exists_cons_of_ne_nil hne
  have hfirst : first.isDigit = true := hdigits first (by simp)
  unfold layout
  by_cases hwhole : 0 ≤ leading ∧ leading ≤ 15
  · rw [if_pos hwhole]
    exact ⟨first, _, rfl, hfirst⟩
  · rw [if_neg hwhole]
    by_cases hsmall : -5 ≤ leading ∧ leading < 0
    · rw [if_pos hsmall]
      exact ⟨'0', _, rfl, rfl⟩
    · rw [if_neg hsmall]
      exact ⟨first, _, rfl, hfirst⟩

theorem layout_mark (digits : List Char) (leading : Int) :
    '.' ∈ layout digits leading ∨ 'e' ∈ layout digits leading := by
  unfold layout
  by_cases hwhole : 0 ≤ leading ∧ leading ≤ 15
  · rw [if_pos hwhole]
    exact Or.inl (by simp)
  · rw [if_neg hwhole]
    by_cases hsmall : -5 ≤ leading ∧ leading < 0
    · rw [if_pos hsmall]
      exact Or.inl (by simp)
    · rw [if_neg hsmall]
      exact Or.inr (by simp)

/-! ## The digits -/

theorem significant_zeros (digits : List Char) :
    ∃ n, digits = significant digits ++ List.replicate n '0' := by
  have hzeros : digits.reverse.takeWhile (· = '0') =
      List.replicate (digits.reverse.takeWhile (· = '0')).length '0' := by
    rw [List.eq_replicate_iff]
    exact ⟨rfl, fun c hc => by simpa using List.all_eq_true.mp List.all_takeWhile c hc⟩
  have hsplit : digits.reverse.takeWhile (· = '0') ++ digits.reverse.dropWhile (· = '0') = digits.reverse :=
    List.takeWhile_append_dropWhile
  refine ⟨(digits.reverse.takeWhile (· = '0')).length, ?_⟩
  unfold significant
  rw [hzeros] at hsplit
  rw [← List.reverse_replicate, ← List.reverse_append, hsplit, List.reverse_reverse]

theorem significant_digits {digits : List Char} (h : AreDigits digits) : AreDigits (significant digits) := by
  obtain ⟨n, hn⟩ := significant_zeros digits
  rw [hn] at h
  exact h.of_subset (List.subset_append_left ..)

theorem significant_ne_nil {n : Nat} (hn : n ≠ 0) : significant (Nat.toDigits 10 n) ≠ [] := by
  intro hnil
  obtain ⟨k, hk⟩ := significant_zeros (Nat.toDigits 10 n)
  have hvalue : Nat.ofDigitChars 10 (Nat.toDigits 10 n) 0 = n := Nat.ofDigitChars_ten_toDigits
  rw [hk, hnil, Decimal.ofDigitChars_zeros] at hvalue
  exact hn (by simpa using hvalue.symm)

theorem value_layout_significant {digits : List Char} (hdigits : AreDigits digits)
    (hne : significant digits ≠ []) (exponent : Int) :
    (Decimal.ofText (layout (significant digits) (digits.length - 1 + exponent))).value =
      Decimal.value ⟨Nat.ofDigitChars 10 digits 0, exponent⟩ := by
  obtain ⟨zeros, hzeros⟩ := significant_zeros digits
  have hvalue : Nat.ofDigitChars 10 digits 0 = Nat.ofDigitChars 10 (significant digits) 0 * 10 ^ zeros := by
    rw [← Decimal.ofDigitChars_zeros, ← hzeros]
  have hlength : digits.length = (significant digits).length + zeros := by
    conv => lhs; rw [hzeros, List.length_append, List.length_replicate]
  rw [value_layout (significant_digits hdigits) hne, hvalue, Decimal.value_shift]
  congr 2
  omega

/-! ## Rounding -/

/-- The rationals that round to the magnitude of `x`. -/
def RoundsFrom (x : Double) (v : ℚ) : Prop :=
  let scaled := v * (Nat.pow 2 1076 : Nat)
  let lower : ℚ := (x.lowerQuarters * Nat.pow 2 x.exponent : Nat)
  let upper : ℚ := (x.upperQuarters * Nat.pow 2 x.exponent : Nat)
  if x.mantissa % 2 = 0 then lower ≤ scaled ∧ scaled ≤ upper else lower < scaled ∧ scaled < upper

theorem readsBack_iff (x : Double) (d : Decimal) : x.readsBack d = true ↔ x.RoundsFrom d.value := by
  have hdown : (0 : ℚ) < (Nat.pow 10 (-d.exponent).toNat : Nat) := by
    rw [Nat.pow_eq]; positivity
  have hpower : (10 : ℚ) ^ d.exponent * (Nat.pow 10 (-d.exponent).toNat : Nat) =
      (Nat.pow 10 d.exponent.toNat : Nat) := by
    rw [Nat.pow_eq, Nat.pow_eq]
    push_cast
    rw [← zpow_natCast, ← zpow_natCast, ← zpow_add₀ (by norm_num)]
    congr 1
    omega
  have hvalue : d.value * (Nat.pow 2 1076 : Nat) * (Nat.pow 10 (-d.exponent).toNat : Nat) =
      (d.digits * Nat.pow 10 d.exponent.toNat * Nat.pow 2 1076 : Nat) := by
    unfold Decimal.value
    generalize Nat.pow 2 1076 = unit
    push_cast
    rw [← hpower]
    ring
  unfold readsBack RoundsFrom
  dsimp only
  -- the powers are too large to be computed, and only the sign of the last one matters
  generalize Nat.pow 2 1076 = unit at hvalue ⊢
  generalize d.digits * Nat.pow 10 d.exponent.toNat * unit = scaled at hvalue ⊢
  generalize Nat.pow 10 (-d.exponent).toNat = down at hvalue hdown ⊢
  generalize x.lowerQuarters * Nat.pow 2 x.exponent = lower
  generalize x.upperQuarters * Nat.pow 2 x.exponent = upper
  have hle (bound : Nat) : bound * down ≤ scaled ↔ (bound : ℚ) ≤ d.value * unit := by
    rw [← mul_le_mul_iff_of_pos_right hdown, hvalue]
    exact_mod_cast Iff.rfl
  have hge (bound : Nat) : scaled ≤ bound * down ↔ d.value * unit ≤ (bound : ℚ) := by
    rw [← mul_le_mul_iff_of_pos_right hdown, hvalue]
    exact_mod_cast Iff.rfl
  by_cases heven : x.mantissa % 2 = 0
  · rw [if_pos heven, if_pos heven, Bool.and_eq_true, decide_eq_true_eq, decide_eq_true_eq, hle, hge]
  · rw [if_neg heven, if_neg heven, Bool.and_eq_true, decide_eq_true_eq, decide_eq_true_eq, ← not_le, ← not_le,
      hle, hge, not_le, not_le]

theorem readsBack_of_onGrid {x : Double} {place : Int} {d : Decimal} (h : x.onGrid place = some d) :
    x.readsBack d = true := by
  unfold onGrid at h
  dsimp only at h
  split at h
  next hbelow habove =>
    split at h
    · cases h; exact hbelow
    · cases h; exact habove
    · split at h
      · cases h; exact hbelow
      · cases h; exact habove
  next hbelow _ => cases h; exact hbelow
  next _ habove => cases h; exact habove
  next => cases h

theorem value_exact (n : Nat) {places twos : Nat} {exponent : Int} (hexponent : exponent = -(places : Int))
    (htwos : twos = places + 2) :
    Decimal.value ⟨n * Nat.pow 5 places, exponent⟩ * (Nat.pow 2 twos : Nat) = (4 * n : Nat) := by
  subst hexponent htwos
  unfold Decimal.value
  rw [Nat.pow_eq, Nat.pow_eq, zpow_neg, zpow_natCast, show (10 : ℚ) = 5 * 2 by norm_num, mul_pow]
  push_cast
  field_simp
  ring

theorem roundsFrom_self {x : Double} (hx : x.mantissa ≠ 0) {v : ℚ}
    (h : v * (Nat.pow 2 1076 : Nat) = (4 * (x.mantissa * Nat.pow 2 x.exponent) : Nat)) : x.RoundsFrom v := by
  have hpos : 0 < Nat.pow 2 x.exponent := Nat.pow_pos (by decide)
  have hlower : x.lowerQuarters * Nat.pow 2 x.exponent < 4 * (x.mantissa * Nat.pow 2 x.exponent) := by
    rw [← Nat.mul_assoc, Nat.mul_lt_mul_right hpos]
    unfold lowerQuarters
    split <;> omega
  have hupper : 4 * (x.mantissa * Nat.pow 2 x.exponent) < x.upperQuarters * Nat.pow 2 x.exponent := by
    rw [← Nat.mul_assoc, Nat.mul_lt_mul_right hpos]
    unfold upperQuarters
    omega
  unfold RoundsFrom
  dsimp only
  rw [h]
  split
  · exact ⟨by exact_mod_cast hlower.le, by exact_mod_cast hupper.le⟩
  · exact ⟨by exact_mod_cast hlower, by exact_mod_cast hupper⟩

theorem readsBack_exact {x : Double} (hx : x.mantissa ≠ 0) :
    x.readsBack ⟨x.mantissa * Nat.pow 2 x.exponent * Nat.pow 5 1074, -1074⟩ = true := by
  rw [readsBack_iff]
  apply roundsFrom_self hx
  apply value_exact
  · rfl
  · rfl

theorem readsBack_shortest {x : Double} (hx : x.mantissa ≠ 0) : x.readsBack x.shortest = true := by
  unfold shortest
  cases hgrid : (List.range 17).findSome? fun (n : Nat) => x.onGrid (x.leadingPlace - n) with
  | none => exact readsBack_exact hx
  | some d =>
    obtain ⟨n, -, hn⟩ := List.exists_of_findSome?_eq_some hgrid
    exact readsBack_of_onGrid hn

theorem RoundsFrom.bounds {x : Double} {v : ℚ} (h : x.RoundsFrom v) :
    ((x.lowerQuarters * Nat.pow 2 x.exponent : Nat) : ℚ) ≤ v * (Nat.pow 2 1076 : Nat) ∧
      v * (Nat.pow 2 1076 : Nat) ≤ (x.upperQuarters * Nat.pow 2 x.exponent : Nat) := by
  unfold RoundsFrom at h
  dsimp only at h
  split at h
  · exact h
  · exact ⟨h.1.le, h.2.le⟩

theorem RoundsFrom.strict {x : Double} {v : ℚ} (h : x.RoundsFrom v) (hodd : x.mantissa % 2 = 1) :
    ((x.lowerQuarters * Nat.pow 2 x.exponent : Nat) : ℚ) < v * (Nat.pow 2 1076 : Nat) ∧
      v * (Nat.pow 2 1076 : Nat) < (x.upperQuarters * Nat.pow 2 x.exponent : Nat) := by
  unfold RoundsFrom at h
  dsimp only at h
  rw [if_neg (by omega)] at h
  exact h

/-- The interval of a magnitude ends where that of a greater one begins, or before; two that share an
end are not both closed. -/
theorem upper_le_lower {x y : Double}
    (h : x.exponent < y.exponent ∨ x.exponent = y.exponent ∧ x.mantissa < y.mantissa) :
    x.upperQuarters * Nat.pow 2 x.exponent ≤ y.lowerQuarters * Nat.pow 2 y.exponent ∧
      (x.mantissa % 2 = 0 → y.mantissa % 2 = 0 →
        x.upperQuarters * Nat.pow 2 x.exponent < y.lowerQuarters * Nat.pow 2 y.exponent) := by
  have hx := x.mantissa_lt
  have hcx := x.canonical
  have hcy := y.canonical
  rw [Nat.pow_eq] at hx hcx hcy
  have hpos : 0 < Nat.pow 2 x.exponent := Nat.pow_pos (by decide)
  rcases h with hlt | ⟨heq, hlt⟩
  · -- the step above is at least twice as wide, and the greatest mantissa is odd
    obtain ⟨gap, hgap⟩ := Nat.exists_eq_add_of_lt hlt
    have hquarters : x.upperQuarters ≤ 2 * y.lowerQuarters ∧
        (x.mantissa % 2 = 0 → x.upperQuarters < 2 * y.lowerQuarters) := by
      unfold upperQuarters lowerQuarters
      rw [Nat.pow_eq]
      split <;> omega
    have hstep : 2 * y.lowerQuarters * Nat.pow 2 x.exponent ≤ y.lowerQuarters * Nat.pow 2 y.exponent := by
      have hgrow : Nat.pow 2 y.exponent = 2 * Nat.pow 2 x.exponent * Nat.pow 2 gap := by
        simp only [Nat.pow_eq]
        rw [hgap, pow_succ, pow_add]
        ring
      rw [hgrow]
      have hgap_pos : 0 < Nat.pow 2 gap := Nat.pow_pos (by decide)
      calc 2 * y.lowerQuarters * Nat.pow 2 x.exponent
          = y.lowerQuarters * (2 * Nat.pow 2 x.exponent) := by ring
        _ ≤ y.lowerQuarters * (2 * Nat.pow 2 x.exponent * Nat.pow 2 gap) :=
          Nat.mul_le_mul_left _ (Nat.le_mul_of_pos_right _ hgap_pos)
    refine ⟨(Nat.mul_le_mul_right _ hquarters.1).trans hstep, fun heven _ => ?_⟩
    exact ((Nat.mul_lt_mul_right hpos).mpr (hquarters.2 heven)).trans_le hstep
  · have hquarters : x.upperQuarters ≤ y.lowerQuarters ∧
        (x.mantissa % 2 = 0 → y.mantissa % 2 = 0 → x.upperQuarters < y.lowerQuarters) := by
      unfold upperQuarters lowerQuarters
      rw [Nat.pow_eq]
      split <;> omega
    rw [← heq]
    refine ⟨Nat.mul_le_mul_right _ hquarters.1, fun hex hey => ?_⟩
    exact (Nat.mul_lt_mul_right hpos).mpr (hquarters.2 hex hey)

theorem not_roundsFrom_both {x y : Double}
    (h : x.exponent < y.exponent ∨ x.exponent = y.exponent ∧ x.mantissa < y.mantissa) {v : ℚ}
    (hx : x.RoundsFrom v) : ¬ y.RoundsFrom v := by
  intro hy
  obtain ⟨hle, hlt⟩ := upper_le_lower h
  have hleQ : ((x.upperQuarters * Nat.pow 2 x.exponent : Nat) : ℚ) ≤
      (y.lowerQuarters * Nat.pow 2 y.exponent : Nat) := by exact_mod_cast hle
  -- an end belongs to its interval only for an even mantissa
  rcases Nat.mod_two_eq_zero_or_one x.mantissa with hex | hox
  · rcases Nat.mod_two_eq_zero_or_one y.mantissa with hey | hoy
    · have hltQ : ((x.upperQuarters * Nat.pow 2 x.exponent : Nat) : ℚ) <
          (y.lowerQuarters * Nat.pow 2 y.exponent : Nat) := by exact_mod_cast hlt hex hey
      linarith [hx.bounds.2, hy.bounds.1]
    · linarith [hx.bounds.2, (hy.strict hoy).1]
  · linarith [(hx.strict hox).2, hy.bounds.1]

/-- No rational rounds to two magnitudes. -/
theorem RoundsFrom.unique {x y : Double} {v : ℚ} (hx : x.RoundsFrom v) (hy : y.RoundsFrom v) :
    x.mantissa = y.mantissa ∧ x.exponent = y.exponent := by
  rcases Nat.lt_trichotomy x.exponent y.exponent with he | he | he
  · exact absurd hy (not_roundsFrom_both (Or.inl he) hx)
  · rcases Nat.lt_trichotomy x.mantissa y.mantissa with hm | hm | hm
    · exact absurd hy (not_roundsFrom_both (Or.inr ⟨he, hm⟩) hx)
    · exact ⟨hm, he⟩
    · exact absurd hx (not_roundsFrom_both (Or.inr ⟨he.symm, hm⟩) hy)
  · exact absurd hx (not_roundsFrom_both (Or.inl he) hy)

/-! ## Texts of doubles -/

/-- The text without the sign. -/
def magnitudeChars (x : Double) : List Char :=
  if x.isZero then ['0', '.', '0']
  else
    layout (significant (Nat.toDigits 10 x.shortest.digits))
      ((Nat.toDigits 10 x.shortest.digits).length - 1 + x.shortest.exponent)

theorem chars_eq (x : Double) :
    x.chars = if x.negative then '-' :: x.magnitudeChars else x.magnitudeChars := rfl

theorem isZero_iff (x : Double) : x.isZero = true ↔ x.mantissa = 0 := beq_iff_eq

theorem RoundsFrom.pos {x : Double} {v : ℚ} (h : x.RoundsFrom v) (hx : x.mantissa ≠ 0) : 0 < v := by
  have hlower : 0 < x.lowerQuarters * Nat.pow 2 x.exponent := by
    refine Nat.mul_pos ?_ (Nat.pow_pos (by decide))
    unfold lowerQuarters
    split <;> omega
  have hscaled : (0 : ℚ) < v * (Nat.pow 2 1076 : Nat) :=
    lt_of_lt_of_le (by exact_mod_cast hlower) h.bounds.1
  exact pos_of_mul_pos_left hscaled (Nat.cast_nonneg _)

theorem shortest_digits {x : Double} (hx : x.mantissa ≠ 0) : x.shortest.digits ≠ 0 := by
  intro hzero
  have hpos := ((readsBack_iff x _).mp (readsBack_shortest hx)).pos hx
  unfold Decimal.value at hpos
  rw [hzero, Nat.cast_zero, zero_mul] at hpos
  exact lt_irrefl _ hpos

/-- The text of a double other than zero denotes a rational that rounds to it. -/
theorem roundsFrom_text {x : Double} (hx : x.mantissa ≠ 0) :
    x.RoundsFrom (Decimal.ofText x.magnitudeChars).value := by
  have hzero : ¬ x.isZero = true := by rw [isZero_iff]; exact hx
  have hvalue := value_layout_significant (.toDigits x.shortest.digits) (significant_ne_nil (shortest_digits hx))
    x.shortest.exponent
  rw [Nat.ofDigitChars_ten_toDigits] at hvalue
  unfold magnitudeChars
  rw [if_neg hzero, hvalue]
  exact (readsBack_iff x _).mp (readsBack_shortest hx)

theorem value_text_zero {x : Double} (hx : x.mantissa = 0) : (Decimal.ofText x.magnitudeChars).value = 0 := by
  have hzero : x.isZero = true := (isZero_iff x).mpr hx
  unfold magnitudeChars
  rw [if_pos hzero]
  have htext : Decimal.ofText ['0', '.', '0'] = ⟨0, -1⟩ := rfl
  rw [htext]
  unfold Decimal.value
  simp

theorem exponent_of_zero {x : Double} (hx : x.mantissa = 0) : x.exponent = 0 := by
  have hcanonical := x.canonical
  rw [hx, Nat.pow_eq] at hcanonical
  omega

theorem magnitude_of_text {x y : Double} (h : x.magnitudeChars = y.magnitudeChars) :
    x.mantissa = y.mantissa ∧ x.exponent = y.exponent := by
  by_cases hx : x.mantissa = 0
  · by_cases hy : y.mantissa = 0
    · exact ⟨hx.trans hy.symm, (exponent_of_zero hx).trans (exponent_of_zero hy).symm⟩
    · have hpos := (roundsFrom_text hy).pos hy
      rw [← h, value_text_zero hx] at hpos
      exact absurd hpos (lt_irrefl _)
  · by_cases hy : y.mantissa = 0
    · have hpos := (roundsFrom_text hx).pos hx
      rw [h, value_text_zero hy] at hpos
      exact absurd hpos (lt_irrefl _)
    · have hrounds := roundsFrom_text hx
      rw [h] at hrounds
      exact hrounds.unique (roundsFrom_text hy)

theorem magnitudeChars_head (x : Double) : ∃ c rest, x.magnitudeChars = c :: rest ∧ c.isDigit = true := by
  unfold magnitudeChars
  by_cases hzero : x.isZero = true
  · rw [if_pos hzero]
    exact ⟨'0', _, rfl, rfl⟩
  · rw [if_neg hzero]
    have hx : x.mantissa ≠ 0 := by rwa [isZero_iff] at hzero
    exact layout_head (significant_digits (.toDigits _)) (significant_ne_nil (shortest_digits hx)) _

theorem magnitudeChars_mark (x : Double) : '.' ∈ x.magnitudeChars ∨ 'e' ∈ x.magnitudeChars := by
  unfold magnitudeChars
  split
  · exact Or.inl (by simp)
  · exact layout_mark _ _

/-- The text of a double determines it, the sign of a zero included. -/
theorem chars_injective : Function.Injective chars := by
  intro x y h
  obtain ⟨c, restx, hx, hc⟩ := x.magnitudeChars_head
  obtain ⟨d, resty, hy, hd⟩ := y.magnitudeChars_head
  rw [chars_eq, chars_eq] at h
  have hsign : x.negative = y.negative ∧ x.magnitudeChars = y.magnitudeChars := by
    cases hxn : x.negative <;> cases hyn : y.negative <;> rw [hxn, hyn] at h
    · exact ⟨rfl, h⟩
    · have : c = '-' := by
        rw [hx] at h
        exact (List.cons.inj h).1
      rw [this] at hc; cases hc
    · have : d = '-' := by
        rw [hy] at h
        exact (List.cons.inj h).1.symm
      rw [this] at hd; cases hd
    · exact ⟨rfl, (List.cons.inj h).2⟩
  obtain ⟨hm, he⟩ := magnitude_of_text hsign.2
  cases x; cases y
  cases hsign.1; cases hm; cases he
  rfl

theorem chars_mark (x : Double) : '.' ∈ x.chars ∨ 'e' ∈ x.chars := by
  rw [chars_eq]
  cases x.negative
  · exact x.magnitudeChars_mark
  · exact x.magnitudeChars_mark.imp (List.mem_cons_of_mem _) (List.mem_cons_of_mem _)

end Double

/-! ## Texts of numbers -/

namespace Number

theorem mem_intChars {n : Int} {c : Char} (h : c ∈ intChars n) : c = '-' ∨ c.isDigit = true := by
  cases n with
  | ofNat n => exact Or.inr (AreDigits.toDigits n c h)
  | negSucc n =>
    rcases List.mem_cons.mp h with h | h
    · exact Or.inl h
    · exact Or.inr (AreDigits.toDigits _ c h)

theorem intChars_injective : Function.Injective intChars := by
  have hdigits {a b : Nat} (h : Nat.toDigits 10 a = Nat.toDigits 10 b) : a = b := by
    rw [← Nat.ofDigitChars_ten_toDigits (n := a), h, Nat.ofDigitChars_ten_toDigits]
  have hminus {a : Nat} {rest : List Char} : Nat.toDigits 10 a ≠ '-' :: rest := by
    intro h
    have : '-'.isDigit = true := AreDigits.toDigits a '-' (by rw [h]; simp)
    cases this
  intro m n h
  cases m with
  | ofNat a =>
    cases n with
    | ofNat b => rw [hdigits h]
    | negSucc b => exact absurd h hminus
  | negSucc a =>
    cases n with
    | ofNat b => exact absurd h.symm hminus
    | negSucc b => rw [Nat.succ.inj (hdigits (List.cons.inj h).2)]

theorem intChars_ne_double (n : Int) (x : Double) : intChars n ≠ x.chars := by
  intro h
  rcases x.chars_mark with hmark | hmark <;> rw [← h] at hmark <;>
    rcases mem_intChars hmark with hc | hc <;> cases hc

/-- Distinct numbers have distinct texts. -/
theorem chars_injective : Function.Injective chars := by
  intro a b h
  cases a with
  | int m =>
    cases b with
    | int n => rw [intChars_injective h]
    | double y => exact absurd h (intChars_ne_double m y)
  | double x =>
    cases b with
    | int n => exact absurd h.symm (intChars_ne_double n x)
    | double y => rw [Double.chars_injective h]

end Number

end TestMatrix
