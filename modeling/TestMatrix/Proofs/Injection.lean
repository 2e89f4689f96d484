import Mathlib.Data.List.Perm.Basic
import TestMatrix.Proofs.Conditions
import TestMatrix.Proofs.Contexts
import TestMatrix.Proofs.Exclusion
import TestMatrix.Proofs.Seams

/-!
# Parts of a template

The named parts of a template are rendered before the template itself, which sees their texts over its
context. Main statement: every part is rendered under the context alone, so none sees what another came to
and their order does not matter; and a text that is put in for a name is not looked at again.
-/

namespace TestMatrix

namespace Template

variable {values other : Fields}

theorem filled_congr (h : ∀ key, values.lookup key = other.lookup key) (piece : Piece) :
    piece.filled values = piece.filled other := by
  cases piece with
  | placeholder key form unclosed => simp only [Piece.filled, h]
  | _ => rfl

theorem render_congr (h : ∀ key, values.lookup key = other.lookup key) (required : Bool) (template : String) :
    render required template values = render required template other := by
  have hrun : run values .literal 0 template.toList = run other .literal 0 template.toList := by
    rcases run_cases values 0 template.toList with
      ⟨pieces, texts, hchars, hfilled⟩ | ⟨done, texts, rest, fault, hchars, hdone, hfails⟩
    · rw [hchars, run_of_filled values hfilled]
      simp only [FilledBy, filled_congr h] at hfilled
      rw [run_of_filled other hfilled]
    · rw [hchars, run_of_failing values hdone hfails]
      simp only [FilledBy, FailsAt, filled_congr h] at hdone hfails
      rw [run_of_failing other hdone hfails]
  rw [render, render, fill, fill, hrun]

/-- Behind a text that renders, a name gives its value as it is, and what follows goes on as if it stood alone. -/
theorem render_name {key before front text after all : String} (hkey : ')' ∉ key.toList)
    (hvalue : values.lookup key = some (.str text)) (hfront : render false before values = .ok front) :
    render false (before ++ ("%(" ++ key ++ ")s") ++ after) values = .ok all ↔
      ∃ back, render false after values = .ok back ∧ all = front ++ text ++ back := by
  have hname : render false ("%(" ++ key ++ ")s") values = .ok text := by
    have hpieces : ("%(" ++ key ++ ")s").toList = [Piece.placeholder key.toList .text hkey].flatMap Piece.chars := by
      simp [Piece.chars, Form.letter]
    have hfilled : FilledBy values [Piece.placeholder key.toList .text hkey] [text] := by
      refine .cons ?_ .nil
      simp only [Piece.filled, String.ofList_toList, hvalue]
      rfl
    rw [render_of_filled hpieces hfilled, String.join_cons, String.join_nil, String.append_empty]
  exact render_append_eq_ok ((render_append_eq_ok hfront).mpr ⟨text, hname, rfl⟩)

end Template

namespace Rendering

open Script (OnlyFetches fetched)

variable {σ α β : Type} {fetch : Source (StateM σ)} {s s'' : σ}

theorem fetched_bind_eq_ok {rendering : Rendering α} (h : OnlyFetches rendering) {f : α → Rendering β} {b : β} :
    fetched fetch (rendering >>= f : Rendering β) s = (.ok b, s'') ↔
      ∃ a s', fetched fetch rendering s = (.ok a, s') ∧ fetched fetch (f a) s' = (.ok b, s'') := by
  have hplay := h.play_eq fetch (fun _ => pure (.ok 0)) .zero s
  cases hfirst : fetched fetch rendering s with
  | mk answer s' =>
    rw [hfirst] at hplay
    cases answer with
    | ok a =>
      have hbind : fetched fetch (rendering >>= f : Rendering β) s = fetched fetch (f a) s' := by
        rw [fetched, play_bind_ok hplay, fetched]
      rw [hbind]
      constructor
      · intro hrest
        exact ⟨a, s', rfl, hrest⟩
      · intro hrest
        obtain ⟨_, _, heq, hrest⟩ := hrest
        cases heq
        exact hrest
    | error fault =>
      rw [fetched, play_bind_error hplay]
      constructor
      · intro hrest
        cases hrest
      · intro hrest
        obtain ⟨_, _, heq, -⟩ := hrest
        cases heq

theorem fetched_ofDefect_eq_ok {result : Except SchemaDefect α} {a : α} :
    fetched fetch (ofDefect result) s = (.ok a, s'') ↔ result = .ok a ∧ s = s'' := by
  cases result with
  | ok b =>
    change (Except.ok b, s) = _ ↔ _
    simp
  | error defect =>
    change (Except.error (RunFault.schema defect), s) = _ ↔ _
    simp

theorem fetched_fetch (reference : String) : fetched fetch (Rendering.fetch reference) s = fetch reference s := rfl

end Rendering

namespace Render

open Rendering
open Script (fetched)

section
variable {σ : Type} (fetch : Source (StateM σ)) (context : Fields)

/-- The reference renders, and a template is served for it. -/
def Serves (reference : String) (s : σ) (template : String) (s' : σ) : Prop :=
  ∃ place, Template.render false reference context = .ok place ∧ fetch place s = (.ok template, s')

/-- All parts are served and rendered in turn, each under the same context. -/
inductive PartsServed : List (String × String) → σ → Fields → σ → Prop
  | done {s : σ} : PartsServed [] s [] s
  | next {key reference template text : String} {rest : List (String × String)} {layer : Fields} {s s' s'' : σ} :
    Serves fetch context reference s template s' → Template.render false template context = .ok text →
    PartsServed rest s' layer s'' → PartsServed ((key, reference) :: rest) s ((key, .str text) :: layer) s''

variable {fetch context}

theorem fetched_fetch_eq_ok {reference template : String} {s s' : σ} :
    fetched fetch (Render.fetch reference context) s = (.ok template, s') ↔
      Serves fetch context reference s template s' := by
  rw [Render.fetch, fetched_bind_eq_ok (onlyFetches_ofDefect _)]
  simp only [fetched_ofDefect_eq_ok, fetched_fetch]
  constructor
  · intro h
    obtain ⟨place, _, ⟨hplace, rfl⟩, htemplate⟩ := h
    exact ⟨place, hplace, htemplate⟩
  · intro h
    obtain ⟨place, hplace, htemplate⟩ := h
    exact ⟨place, s, ⟨hplace, rfl⟩, htemplate⟩

theorem fetched_parts_eq_ok : ∀ {named : List (String × String)} {layer : Fields} {s s'' : σ},
    fetched fetch (parts context named) s = (.ok layer, s'') ↔ PartsServed fetch context named s layer s''
  | [], layer, s, s'' => by
    change (Except.ok [], s) = _ ↔ _
    constructor
    · intro h
      cases h
      exact .done
    · intro h
      cases h
      rfl
  | (key, reference) :: rest, layer, s, s'' => by
    rw [parts, fetched_bind_eq_ok (Render.onlyFetches_fetch reference context)]
    simp only [fetched_bind_eq_ok (onlyFetches_ofDefect _), fetched_bind_eq_ok (onlyFetches_parts context rest),
      fetched_fetch_eq_ok, fetched_ofDefect_eq_ok, fetched_parts_eq_ok]
    constructor
    · intro h
      obtain ⟨template, s', hserves, text, _, ⟨htext, rfl⟩, others, _, hrest, hpure⟩ := h
      cases hpure
      exact .next hserves htext hrest
    · intro h
      cases h with
      | next hserves htext hrest => exact ⟨_, _, hserves, _, _, ⟨htext, rfl⟩, _, _, hrest, rfl⟩

theorem PartsServed.keys {named : List (String × String)} {layer : Fields} {s s' : σ}
    (h : PartsServed fetch context named s layer s') : Fields.keys layer = named.map Prod.fst := by
  induction h with
  | done => rfl
  | next _ _ _ ih => rw [Fields.keys_cons, ih, List.map_cons]

theorem render_setAll {layer : Fields} (hnodup : (Fields.keys layer).Nodup) (context : Fields) (template : String) :
    Template.render false template (Context.setAll context layer) = Template.render false template (layer ++ context) :=
  Template.render_congr (fun key => by rw [Context.lookup_setAll hnodup, List.lookup_append]) false template

theorem fetched_content_eq_ok {main text : String} {named : List (String × String)}
    (hnamed : (named.map Prod.fst).Nodup) {s s'' : σ} :
    fetched fetch (content false (.external main named) context) s = (.ok text, s'') ↔
      ∃ layer s' template, PartsServed fetch context named s layer s' ∧
        Serves fetch context main s' template s'' ∧ Template.render false template (layer ++ context) = .ok text := by
  rw [content, fetched_bind_eq_ok (onlyFetches_parts context named)]
  simp only [fetched_bind_eq_ok (Render.onlyFetches_fetch main context), fetched_parts_eq_ok, fetched_fetch_eq_ok,
    fetched_ofDefect_eq_ok]
  constructor
  · intro h
    obtain ⟨layer, s', hparts, template, _, hmain, htext, rfl⟩ := h
    rw [render_setAll (hparts.keys ▸ hnamed)] at htext
    exact ⟨layer, s', template, hparts, hmain, htext⟩
  · intro h
    obtain ⟨layer, s', template, hparts, hmain, htext⟩ := h
    rw [← render_setAll (hparts.keys ▸ hnamed)] at htext
    exact ⟨layer, s', hparts, template, s'', hmain, htext, rfl⟩

end

/-! ## Readers that always answer the same -/

section
variable (read : String → Except RunFault String) (context : Fields)

def Reads (reference template : String) : Prop :=
  ∃ place, Template.render false reference context = .ok place ∧ read place = .ok template

/-- What a part comes to, whatever the other parts are. -/
def Comes (part : String × String) (entry : String × Json) : Prop :=
  ∃ template text, Reads read context part.2 template ∧ Template.render false template context = .ok text ∧
    entry = (part.1, .str text)

/-- A reader that may keep notes, but whose answers depend on nothing but the reference. -/
def Steady {σ : Type} (fetch : Source (StateM σ)) : Prop := ∀ reference s, (fetch reference s).1 = read reference

variable {read context}

theorem forall₂_comes_keys {named : List (String × String)} {layer : Fields}
    (h : List.Forall₂ (Comes read context) named layer) : Fields.keys layer = named.map Prod.fst := by
  induction h with
  | nil => rfl
  | cons hentry _ ih =>
    obtain ⟨_, _, _, _, rfl⟩ := hentry
    rw [Fields.keys_cons, ih, List.map_cons]

variable {σ : Type} {fetch : Source (StateM σ)} (hsteady : Steady read fetch)
include hsteady

theorem exists_serves {reference template : String} {s : σ} :
    (∃ s', Serves fetch context reference s template s') ↔ Reads read context reference template := by
  constructor
  · intro h
    obtain ⟨s', place, hplace, htemplate⟩ := h
    exact ⟨place, hplace, by rw [← hsteady place s, htemplate]⟩
  · intro h
    obtain ⟨place, hplace, htemplate⟩ := h
    exact ⟨(fetch place s).2, place, hplace, Prod.ext ((hsteady place s).trans htemplate) rfl⟩

theorem exists_partsServed : ∀ {named : List (String × String)} {layer : Fields} {s : σ},
    (∃ s', PartsServed fetch context named s layer s') ↔ List.Forall₂ (Comes read context) named layer
  | [], layer, s => by
    rw [List.forall₂_nil_left_iff]
    constructor
    · intro h
      obtain ⟨_, h⟩ := h
      cases h
      rfl
    · rintro rfl
      exact ⟨s, .done⟩
  | (key, reference) :: rest, layer, s => by
    rw [List.forall₂_cons_left_iff]
    constructor
    · intro h
      obtain ⟨_, h⟩ := h
      cases h with
      | next hserves htext hrest =>
        exact ⟨_, _, ⟨_, _, (exists_serves hsteady).mp ⟨_, hserves⟩, htext, rfl⟩,
          exists_partsServed.mp ⟨_, hrest⟩, rfl⟩
    · intro h
      obtain ⟨_, others, ⟨template, text, hreads, htext, rfl⟩, hrest, rfl⟩ := h
      obtain ⟨s', hserves⟩ := (exists_serves hsteady).mpr hreads
      obtain ⟨s'', hrest⟩ := (exists_partsServed (s := s')).mpr hrest
      exact ⟨s'', .next hserves htext hrest⟩

theorem content_steady {main text : String} {named : List (String × String)}
    (hnamed : (named.map Prod.fst).Nodup) {s : σ} :
    (fetched fetch (content false (.external main named) context) s).1 = .ok text ↔
      ∃ layer template, List.Forall₂ (Comes read context) named layer ∧ Reads read context main template ∧
        Template.render false template (layer ++ context) = .ok text := by
  constructor
  · intro h
    obtain ⟨layer, s', template, hparts, hmain, htext⟩ := (fetched_content_eq_ok hnamed).mp (Prod.ext h rfl)
    exact ⟨layer, template, (exists_partsServed hsteady).mp ⟨s', hparts⟩, (exists_serves hsteady).mp ⟨_, hmain⟩, htext⟩
  · intro h
    obtain ⟨layer, template, hparts, hmain, htext⟩ := h
    obtain ⟨s', hparts⟩ := (exists_partsServed hsteady (s := s)).mpr hparts
    obtain ⟨s'', hmain⟩ := (exists_serves hsteady (s := s')).mpr hmain
    rw [(fetched_content_eq_ok hnamed).mpr ⟨layer, s', template, hparts, hmain, htext⟩]

theorem content_of_perm {main text : String} {named other : List (String × String)}
    (hnamed : (named.map Prod.fst).Nodup) (hperm : other.Perm named) {s : σ}
    (h : (fetched fetch (content false (.external main named) context) s).1 = .ok text) :
    (fetched fetch (content false (.external main other) context) s).1 = .ok text := by
  obtain ⟨layer, template, hparts, hmain, htext⟩ := (content_steady hsteady hnamed).mp h
  obtain ⟨moved, hmoved, hlayer⟩ := List.perm_comp_forall₂ hperm hparts
  refine (content_steady hsteady ((hperm.map _).nodup_iff.mpr hnamed)).mpr ⟨moved, template, hmoved, hmain, ?_⟩
  have hkeys : (Fields.keys layer).Nodup := forall₂_comes_keys hparts ▸ hnamed
  -- the texts moved with their parts, which changes no lookup
  have hlookup (key : String) : (moved ++ context).lookup key = (layer ++ context).lookup key := by
    rw [List.lookup_append, List.lookup_append, lookup_of_perm hkeys hlayer.symm]
  rw [Template.render_congr hlookup, htext]

end

/-- **Parts.** A template with named parts comes to a text exactly when every part is served and renders under
the context alone, the template is served as well, and it renders to the text with what the parts came to
laid over the context. A reader whose answers do not change over time gives the same text for the
parts in any order. Where the name of a part stands in the template, its text is put in and not
looked at again. -/
theorem parts_injected (main : String) {named : List (String × String)} (hnamed : (named.map Prod.fst).Nodup)
    (context : Fields) :
    (∀ (σ : Type) (fetch : Source (StateM σ)) (s s'' : σ) (text : String),
      fetched fetch (content false (.external main named) context) s = (.ok text, s'') ↔
        ∃ layer s' template, PartsServed fetch context named s layer s' ∧ Serves fetch context main s' template s'' ∧
          Template.render false template (layer ++ context) = .ok text) ∧
    (∀ (σ : Type) (fetch : Source (StateM σ)) (read : String → Except RunFault String), Steady read fetch →
      ∀ (s : σ) (text : String),
        ((fetched fetch (content false (.external main named) context) s).1 = .ok text ↔
          ∃ layer template, List.Forall₂ (Comes read context) named layer ∧ Reads read context main template ∧
            Template.render false template (layer ++ context) = .ok text) ∧
        ∀ other, other.Perm named →
          ((fetched fetch (content false (.external main other) context) s).1 = .ok text ↔
            (fetched fetch (content false (.external main named) context) s).1 = .ok text)) ∧
    ∀ layer key injected before front, layer.lookup key = some (.str injected) → ')' ∉ key.toList →
      Template.render false before (layer ++ context) = .ok front → ∀ after all,
        (Template.render false (before ++ ("%(" ++ key ++ ")s") ++ after) (layer ++ context) = .ok all ↔
          ∃ back, Template.render false after (layer ++ context) = .ok back ∧ all = front ++ injected ++ back) := by
  refine ⟨fun σ fetch s s'' text => fetched_content_eq_ok hnamed, ?_, ?_⟩
  · intro σ fetch read hsteady s text
    refine ⟨content_steady hsteady hnamed, fun other hperm => ⟨?_, content_of_perm hsteady hnamed hperm⟩⟩
    exact content_of_perm hsteady ((hperm.map _).nodup_iff.mpr hnamed) hperm.symm
  · intro layer key injected before front hlookup hkey hfront after all
    refine Template.render_name hkey ?_ hfront
    rw [List.lookup_append, hlookup, Option.some_or]

/-- One part goes by a key of the context, which the references name too; the other comes to what looks like a
placeholder of that key. -/
def shadowing : List (String × String) := [("header", "%(kind)s.header"), ("kind", "%(kind)s.kind")]

def shadowed : List (String × String) :=
  [("case.header", "%%(kind)s of %(kind)s"), ("case.kind", "other"), ("case.main", "%(header)s: %(kind)s")]

theorem shadowing_injected :
    (shadowing.map Prod.fst).Nodup ∧
    (fetched (Source.held shadowed)
        (content false (.external "%(kind)s.main" shadowing) [("kind", .str "case")]) ()).1 =
      .ok "%(kind)s of case: other" := by
  have hnamed : (shadowing.map Prod.fst).Nodup := by decide
  have hsteady : Steady (Templates.held shadowed) (Source.held shadowed : Source (StateM Unit)) := fun _ _ => rfl
  have hcontent := ((parts_injected "%(kind)s.main" hnamed [("kind", .str "case")]).2.1 Unit _ _ hsteady ()
    "%(kind)s of case: other").1
  refine ⟨hnamed, hcontent.mpr ⟨[("header", .str "%(kind)s of case"), ("kind", .str "other")], "%(header)s: %(kind)s",
    ?_, ⟨"case.main", rfl, rfl⟩, rfl⟩⟩
  exact .cons ⟨_, _, ⟨_, rfl, rfl⟩, rfl, rfl⟩ (.cons ⟨_, _, ⟨_, rfl, rfl⟩, rfl, rfl⟩ .nil)

end Render

end TestMatrix
