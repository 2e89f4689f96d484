import TestMatrix.Json.Reader
import TestMatrix.Proofs.DistinctKeys
import TestMatrix.Proofs.Outcomes

/-!
# Documents that are read have distinct keys

Between two characters the reader holds finished values, in its mode and in the lists and mappings
still open around it. None of them has a mapping with a key twice, whatever character follows.
-/

namespace TestMatrix

namespace Json

def Frame.HasDistinctKeys : Frame → Prop
  | .items done => ∀ item ∈ done, item.hasDistinctKeys = true
  | .field done _ => (Json.obj done).hasDistinctKeys = true

def Mode.HasDistinctKeys : Mode → Prop
  | .item done | .afterItem done => ∀ item ∈ done, item.hasDistinctKeys = true
  | .key done | .keyText done _ | .colon done _ | .afterField done => (Json.obj done).hasDistinctKeys = true
  | .word _ held | .finished held => held.hasDistinctKeys = true
  | _ => True

/-- What holds between two characters. -/
structure KeepsDistinctKeys (state : List Frame × Mode) : Prop where
  frames : ∀ frame ∈ state.1, frame.HasDistinctKeys
  mode : state.2.HasDistinctKeys

theorem hasDistinctKeys_nil : (Json.obj []).hasDistinctKeys = true := by decide

theorem hasDistinctKeys_set {fields : Fields} {value : Json} (hfields : (Json.obj fields).hasDistinctKeys = true)
    (hvalue : value.hasDistinctKeys = true) (key : String) :
    (Json.obj (fields.set key value)).hasDistinctKeys = true := by
  obtain ⟨hnodup, hentries⟩ := hasDistinctKeys_obj.mp hfields
  refine hasDistinctKeys_obj.mpr ⟨Fields.nodup_set hnodup key value, fun entry hentry => ?_⟩
  rcases Fields.mem_set hentry with h | rfl
  · exact hentries entry h
  · exact hvalue

theorem keeps_deliver {frames : List Frame} (hframes : ∀ frame ∈ frames, frame.HasDistinctKeys) {value : Json}
    (hvalue : value.hasDistinctKeys = true) : KeepsDistinctKeys (deliver frames value) := by
  cases frames with
  | nil => exact ⟨List.forall_mem_nil _, hvalue⟩
  | cons frame rest =>
    obtain ⟨hframe, hrest⟩ := List.forall_mem_cons.mp hframes
    cases frame with
    | items done => exact ⟨hrest, List.forall_mem_cons.mpr ⟨hvalue, hframe⟩⟩
    | field done key => exact ⟨hrest, hasDistinctKeys_set hframe hvalue key⟩

theorem keeps_startValue {position : Position} {frames : List Frame} {c : Char} {after : List Frame × Mode}
    (hframes : ∀ frame ∈ frames, frame.HasDistinctKeys) (h : startValue position frames c = .ok after) :
    KeepsDistinctKeys after := by
  unfold startValue at h
  split at h
  case h_1 | h_2 =>
    split at h
    · cases h; exact ⟨hframes, trivial⟩
    · cases h
  case h_8 =>
    split at h
    · cases h; exact ⟨hframes, trivial⟩
    · cases h
  case h_3 | h_7 => cases h; exact ⟨hframes, trivial⟩
  all_goals cases h; exact ⟨hframes, rfl⟩

theorem keeps_afterValue {position : Position} {frames : List Frame} {mode : Mode} {c : Char}
    {after : List Frame × Mode} (hstate : KeepsDistinctKeys (frames, mode))
    (h : afterValue position frames mode c = .ok after) : KeepsDistinctKeys after := by
  obtain ⟨hframes, hmode⟩ := hstate
  unfold afterValue at h
  split at h
  · split at h
    · cases h; exact ⟨hframes, hmode⟩
    · cases h
      refine keeps_deliver hframes (hasDistinctKeys_arr.mpr fun item hitem => ?_)
      exact hmode item (List.mem_reverse.mp hitem)
    · cases h
  · split at h
    · cases h; exact ⟨hframes, hmode⟩
    · cases h; exact keeps_deliver hframes hmode
    · cases h
  · cases h

theorem hasDistinctKeys_emptyList : (Json.arr []).hasDistinctKeys = true := by decide

theorem keeps_number {position : Position} {frames : List Frame} {negative : Bool} {literal : Literal} {c : Char}
    {after : List Frame × Mode} (hframes : ∀ frame ∈ frames, frame.HasDistinctKeys)
    (h : transition position frames (.number negative literal) c = .ok after) : KeepsDistinctKeys after := by
  simp only [transition] at h
  split at h
  · cases h; exact ⟨hframes, trivial⟩
  · cases h
  · split at h
    · cases h
    · next value _ =>
      -- the number ends before this character, which is then read as after any value
      have hvalue : (Json.num value).hasDistinctKeys = true := by simp [hasDistinctKeys]
      have hdelivered := keeps_deliver hframes hvalue
      split at h
      · cases h; exact hdelivered
      · exact keeps_afterValue hdelivered h

theorem keeps_transition {position : Position} {frames : List Frame} {mode : Mode} {c : Char}
    {after : List Frame × Mode} (hstate : KeepsDistinctKeys (frames, mode))
    (h : transition position frames mode c = .ok after) : KeepsDistinctKeys after := by
  obtain ⟨hframes, hmode⟩ := id hstate
  cases mode with
  | number negative literal => exact keeps_number hframes h
  | value =>
    simp only [transition] at h
    split at h
    · cases h; exact hstate
    · exact keeps_startValue hframes h
  | firstItem =>
    simp only [transition] at h
    split at h
    · cases h; exact hstate
    · split at h
      · cases h; exact keeps_deliver hframes hasDistinctKeys_emptyList
      · have hopen : ∀ frame ∈ Frame.items [] :: frames, frame.HasDistinctKeys :=
          List.forall_mem_cons.mpr ⟨List.forall_mem_nil _, hframes⟩
        exact keeps_startValue hopen h
  | item done =>
    simp only [transition] at h
    split at h
    · cases h; exact hstate
    · split at h
      · cases h
      · have hopen : ∀ frame ∈ Frame.items done :: frames, frame.HasDistinctKeys :=
          List.forall_mem_cons.mpr ⟨hmode, hframes⟩
        exact keeps_startValue hopen h
  | firstKey =>
    simp only [transition] at h
    split at h
    · cases h; exact hstate
    · split at h
      · cases h; exact keeps_deliver hframes hasDistinctKeys_nil
      · split at h
        · cases h; exact ⟨hframes, hasDistinctKeys_nil⟩
        · cases h
  | key done =>
    simp only [transition] at h
    split at h
    · cases h; exact hstate
    · split at h
      · cases h
      · split at h
        · cases h; exact ⟨hframes, hmode⟩
        · cases h
  | keyText done text =>
    simp only [transition] at h
    split at h
    · cases h; exact ⟨hframes, hmode⟩
    · cases h; exact ⟨hframes, hmode⟩
    · cases h
  | colon done key =>
    simp only [transition] at h
    split at h
    · cases h; exact hstate
    · split at h
      · cases h; exact ⟨List.forall_mem_cons.mpr ⟨hmode, hframes⟩, trivial⟩
      · cases h
  | word rest value =>
    simp only [transition] at h
    split at h
    · cases h
    · split at h
      · cases h; exact keeps_deliver hframes hmode
      · cases h
    · split at h
      · cases h; exact ⟨hframes, hmode⟩
      · cases h
  | text text =>
    simp only [transition] at h
    split at h
    · cases h; exact ⟨hframes, trivial⟩
    · cases h; exact keeps_deliver hframes (by simp [hasDistinctKeys])
    · cases h
  | afterItem done | afterField done | finished done =>
    simp only [transition] at h
    split at h
    · cases h; exact hstate
    · exact keeps_afterValue hstate h

theorem distinct_of_endOfMode {mode : Mode} {value : Json} (hmode : mode.HasDistinctKeys)
    (h : endOfMode mode = .ok value) : value.hasDistinctKeys = true := by
  cases mode with
  | finished held => cases h; exact hmode
  | _ => cases h

theorem distinct_of_finish {reading : Reading} {value : Json}
    (hreading : KeepsDistinctKeys (reading.frames, reading.mode)) (h : reading.finish = .ok value) :
    value.hasDistinctKeys = true := by
  obtain ⟨hframes, hmode⟩ := hreading
  have hended := Except.mapError_eq_ok.mp h
  split at hended
  · split at hended
    · split at hended
      · exact distinct_of_endOfMode (keeps_deliver hframes (by simp [hasDistinctKeys])).mode hended
      · cases hended
    · cases hended
  · exact distinct_of_endOfMode hmode hended

theorem distinct_of_run {chars : List Char} {reading : Reading} {value : Json}
    (hreading : KeepsDistinctKeys (reading.frames, reading.mode)) (h : reading.run chars = .ok value) :
    value.hasDistinctKeys = true := by
  induction chars generalizing reading with
  | nil => exact distinct_of_finish hreading h
  | cons c rest ih =>
    obtain ⟨next, hstep, hrest⟩ := Except.bind_eq_ok.mp h
    obtain ⟨after, htransition, rfl⟩ := Except.map_eq_ok.mp hstep
    exact ih (keeps_transition hreading htransition) hrest

/-- A document that is read has no mapping with a key twice. -/
theorem distinct_of_parse {text : String} {value : Json} (h : parse text = .ok value) :
    value.hasDistinctKeys = true := by
  have hstart : KeepsDistinctKeys ([], .value) := ⟨List.forall_mem_nil _, trivial⟩
  exact distinct_of_run hstart h

end Json

end TestMatrix
