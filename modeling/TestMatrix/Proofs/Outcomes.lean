import Mathlib.Data.List.Forall2

/-!
# Computations that may fail

When a sequence of steps succeeds, and with what, and where a step of a stateful one leads.
-/

namespace TestMatrix

theorem exists_unit_iff {p : Unit → Prop} : (∃ u, p u) ↔ p () :=
  ⟨fun ⟨(), h⟩ => h, fun h => ⟨(), h⟩⟩

theorem exists_of_forall₂_right {α β : Type} {R : α → β → Prop} {l₁ : List α} {l₂ : List β}
    (h : List.Forall₂ R l₁ l₂) {b : β} (hb : b ∈ l₂) : ∃ a ∈ l₁, R a b := by
  induction h with
  | nil => cases hb
  | @cons a b' _ _ hab _ ih =>
    rcases List.mem_cons.mp hb with rfl | hb
    · exact ⟨a, List.mem_cons_self .., hab⟩
    · obtain ⟨a', hmem, hrel⟩ := ih hb
      exact ⟨a', List.mem_cons_of_mem _ hmem, hrel⟩

theorem getElem?_of_forall₂_right {α β : Type} {R : α → β → Prop} {l₁ : List α} {l₂ : List β}
    (h : List.Forall₂ R l₁ l₂) {b : β} : ∀ {i : Nat}, l₂[i]? = some b → ∃ a, l₁[i]? = some a ∧ R a b := by
  induction h with
  | nil => intro i hb; cases hb
  | @cons a b' _ _ hab _ ih =>
    intro i hb
    cases i with
    | zero => cases hb; exact ⟨a, rfl, hab⟩
    | succ i => exact ih hb

theorem StateM.bind_run {σ α β : Type} {first : StateM σ α} {s s' : σ} {a : α} (h : first s = (a, s'))
    (next : α → StateM σ β) : (first >>= next) s = next a s' := by
  show next (first s).1 (first s).2 = next a s'
  rw [h]

theorem StateT.bind_run {γ σ α β : Type} {first : StateT γ (StateM σ) α} {c c' : γ} {s s' : σ} {a : α}
    (h : first c s = ((a, c'), s')) (next : α → StateT γ (StateM σ) β) :
    (first >>= next) c s = next a c' s' := by
  show next (first c s).1.1 (first c s).1.2 (first c s).2 = next a c' s'
  rw [h]

theorem Option.mapM_eq_some {α β : Type} (f : α → Option β) : ∀ (list : List α) {results : List β},
    list.mapM f = some results ↔ List.Forall₂ (fun a b => f a = some b) list results
  | [], results => by
    rw [List.mapM_nil, List.forall₂_nil_left_iff]
    exact ⟨fun h => by cases h; rfl, fun h => by rw [h]; rfl⟩
  | a :: rest, results => by
    simp only [List.mapM_cons, Option.bind_eq_bind, Option.bind_eq_some_iff, Option.mapM_eq_some f rest,
      List.forall₂_cons_left_iff]
    constructor
    · rintro ⟨b, hb, bs, hbs, h⟩
      cases h
      exact ⟨b, bs, hb, hbs, rfl⟩
    · rintro ⟨b, bs, hb, hbs, rfl⟩
      exact ⟨b, hb, bs, hbs, rfl⟩

namespace Except

variable {ε ε' α β σ : Type}

theorem bind_eq_ok {x : Except ε α} {f : α → Except ε β} {b : β} :
    (x >>= f) = .ok b ↔ ∃ a, x = .ok a ∧ f a = .ok b := by
  cases x with
  | error e => exact ⟨(nomatch ·), fun ⟨_, h, _⟩ => nomatch h⟩
  | ok a => exact ⟨fun h => ⟨a, rfl, h⟩, fun ⟨_, h, h'⟩ => by cases h; exact h'⟩

theorem bind_unit_eq_ok {x : Except ε Unit} {f : Unit → Except ε β} {b : β} :
    (x >>= f) = .ok b ↔ x = .ok () ∧ f () = .ok b := by
  rw [bind_eq_ok, exists_unit_iff]

theorem bind_eq_error {x : Except ε α} {f : α → Except ε β} {e : ε} :
    (x >>= f) = .error e ↔ x = .error e ∨ ∃ a, x = .ok a ∧ f a = .error e := by
  cases x with
  | error e' =>
    constructor
    · intro h
      cases h
      exact Or.inl rfl
    · rintro (h | ⟨a, h, -⟩)
      · cases h
        rfl
      · cases h
  | ok a =>
    constructor
    · exact fun h => Or.inr ⟨a, rfl, h⟩
    · rintro (h | ⟨b, hb, h⟩)
      · cases h
      · cases hb
        exact h

theorem map_eq_ok {x : Except ε α} {f : α → β} {b : β} :
    x.map f = .ok b ↔ ∃ a, x = .ok a ∧ f a = b := by
  cases x <;> simp [Except.map]

theorem map_eq_error {x : Except ε α} {f : α → β} {e : ε} : x.map f = .error e ↔ x = .error e := by
  cases x <;> simp [Except.map]

theorem mapError_eq_ok {x : Except ε α} {f : ε → ε'} {a : α} : x.mapError f = .ok a ↔ x = .ok a := by
  cases x <;> simp [Except.mapError]

theorem mapError_eq_error {x : Except ε α} {f : ε → ε'} {e : ε'} :
    x.mapError f = .error e ↔ ∃ e', x = .error e' ∧ f e' = e := by
  cases x <;> simp [Except.mapError]

theorem forM_eq_ok (check : α → Except ε Unit) : ∀ list : List α,
    list.forM check = .ok () ↔ ∀ a ∈ list, check a = .ok ()
  | [] => by simp [pure, Except.pure]
  | a :: rest => by
    rw [List.forM_eq_forM, List.forM_cons, bind_unit_eq_ok, ← List.forM_eq_forM,
      forM_eq_ok check rest, List.forall_mem_cons]

theorem mapM_eq_ok (f : α → Except ε β) : ∀ (list : List α) {results : List β},
    list.mapM f = .ok results ↔ List.Forall₂ (fun a b => f a = .ok b) list results
  | [], results => by
    rw [List.mapM_nil, List.forall₂_nil_left_iff]
    exact ⟨fun h => by cases h; rfl, fun h => by rw [h]; rfl⟩
  | a :: rest, results => by
    simp only [List.mapM_cons, bind_eq_ok, mapM_eq_ok f rest, List.forall₂_cons_left_iff]
    constructor
    · rintro ⟨b, hb, bs, hbs, h⟩
      cases h
      exact ⟨b, bs, hb, hbs, rfl⟩
    · rintro ⟨b, bs, hb, hbs, rfl⟩
      exact ⟨b, hb, bs, hbs, rfl⟩

theorem mapM_cons_flatten (f : α → Except ε (List β)) (a : α) (rest : List α) :
    ((a :: rest).mapM f).map List.flatten =
      (f a >>= fun here => (rest.mapM f).map List.flatten >>= fun there => pure (here ++ there)) := by
  rw [List.mapM_cons]
  cases f a with
  | error _ => rfl
  | ok here => cases rest.mapM f <;> rfl

theorem mapM_isOk (f : α → Except ε β) (list : List α) :
    (∃ results, list.mapM f = .ok results) ↔ ∀ a ∈ list, ∃ b, f a = .ok b := by
  induction list with
  | nil => simp [pure, Except.pure]
  | cons a rest ih =>
    rw [List.forall_mem_cons, ← ih]
    simp only [List.mapM_cons, bind_eq_ok]
    constructor
    · rintro ⟨_, b, hb, bs, hbs, -⟩
      exact ⟨⟨b, hb⟩, bs, hbs⟩
    · rintro ⟨⟨b, hb⟩, bs, hbs⟩
      exact ⟨_, b, hb, bs, hbs, rfl⟩

/-- A sequence of steps ends with the error of the first that has one. -/
theorem mapM_eq_error (f : α → Except ε β) {e : ε} : ∀ {list : List α},
    list.mapM f = .error e ↔ ∃ before a after, list = before ++ a :: after ∧
      (∀ earlier ∈ before, ∃ b, f earlier = .ok b) ∧ f a = .error e
  | [] => by simp [pure, Except.pure]
  | a :: rest => by
    rw [List.mapM_cons]
    cases ha : f a with
    | error e' =>
      constructor
      · intro h
        cases h
        exact ⟨[], a, rest, rfl, by simp, ha⟩
      · rintro ⟨before, a', after, hlist, hbefore, ha'⟩
        cases before with
        | nil =>
          cases hlist
          rw [ha] at ha'
          cases ha'
          rfl
        | cons b before =>
          cases hlist
          obtain ⟨c, hc⟩ := hbefore a (by simp)
          rw [ha] at hc
          cases hc
    | ok b =>
      have hstep : (Except.ok b >>= fun b => rest.mapM f >>= fun bs => pure (b :: bs)) = .error e ↔
          rest.mapM f = .error e := by
        show (rest.mapM f >>= fun bs => pure (b :: bs)) = .error e ↔ _
        cases rest.mapM f with
        | error e' => exact Iff.rfl
        | ok bs => simp [bind, Except.bind, pure, Except.pure]
      rw [hstep, mapM_eq_error f]
      constructor
      · rintro ⟨before, a', after, rfl, hbefore, ha'⟩
        exact ⟨a :: before, a', after, rfl, List.forall_mem_cons.mpr ⟨⟨b, ha⟩, hbefore⟩, ha'⟩
      · rintro ⟨before, a', after, hlist, hbefore, ha'⟩
        cases before with
        | nil =>
          cases hlist
          rw [ha] at ha'
          cases ha'
        | cons _ before =>
          cases hlist
          exact ⟨before, a', after, rfl, (List.forall_mem_cons.mp hbefore).2, ha'⟩

/-- Collecting from each element in turn is a walk along all that is collected from. -/
theorem map_mapM_flatten {γ δ : Type} {f : α → Except ε (List β)} {g : β → γ} {parts : α → List δ}
    {step : δ → Except ε γ} : ∀ {list : List α}, (∀ a ∈ list, (f a).map (List.map g) = (parts a).mapM step) →
      ((list.mapM f).map List.flatten).map (List.map g) = (list.flatMap parts).mapM step
  | [], _ => rfl
  | a :: rest, h => by
    obtain ⟨ha, hrest⟩ := List.forall_mem_cons.mp h
    rw [mapM_cons_flatten, List.flatMap_cons, List.mapM_append, ← ha, ← map_mapM_flatten hrest]
    cases f a with
    | error e => rfl
    | ok here =>
      cases rest.mapM f with
      | error e => rfl
      | ok there => exact congrArg Except.ok (List.map_append ..)

theorem mapM_congr_mem {f g : α → Except ε β} : ∀ {list : List α},
    (∀ a ∈ list, f a = g a) → list.mapM f = list.mapM g
  | [], _ => rfl
  | a :: rest, h => by
    obtain ⟨ha, hrest⟩ := List.forall_mem_cons.mp h
    rw [List.mapM_cons, List.mapM_cons, ha, mapM_congr_mem hrest]

theorem error_of_foldlM {f : σ → α → Except ε σ} {e : ε} : ∀ {list : List α} {s : σ},
    list.foldlM f s = .error e → ∃ a ∈ list, ∃ s', f s' a = .error e
  | a :: rest, s, h => by
    rw [List.foldlM_cons] at h
    cases ha : f s a with
    | error e' =>
      rw [ha] at h
      cases h
      exact ⟨a, List.mem_cons_self .., s, ha⟩
    | ok s' =>
      rw [ha] at h
      obtain ⟨b, hb, hstop⟩ := error_of_foldlM (s := s') h
      exact ⟨b, List.mem_cons_of_mem _ hb, hstop⟩

theorem error_of_forM {check : α → Except ε Unit} {e : ε} : ∀ {list : List α},
    list.forM check = .error e → ∃ a ∈ list, check a = .error e
  | a :: rest, h => by
    rw [List.forM_eq_forM, List.forM_cons, bind_eq_error] at h
    obtain h | ⟨_, -, h⟩ := h
    · exact ⟨a, List.mem_cons_self .., h⟩
    · obtain ⟨b, hb, hstop⟩ := error_of_forM h
      exact ⟨b, List.mem_cons_of_mem _ hb, hstop⟩

theorem foldlM_congr_mem {f g : σ → α → Except ε σ} : ∀ {list : List α},
    (∀ a ∈ list, ∀ s, f s a = g s a) → ∀ s, list.foldlM f s = list.foldlM g s
  | [], _, _ => rfl
  | a :: rest, h, s => by
    rw [List.foldlM_cons, List.foldlM_cons, h a (List.mem_cons_self ..) s]
    exact congrArg _ (funext fun s' =>
      foldlM_congr_mem (fun b hb => h b (List.mem_cons_of_mem _ hb)) s')

end Except

end TestMatrix
