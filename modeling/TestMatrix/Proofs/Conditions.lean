import TestMatrix.Proofs.DistinctKeys
import TestMatrix.Proofs.Traces

/-!
# What the rules of a leaf do

The rules of a leaf run in order over a context that only extensions change, and every artifact is handed
over as soon as it is rendered. Here this is said step by step as a relation between where a leaf stands
before and after a rule, with the answers of the templates' source and the artifacts' destination in it;
both may answer as they like and differently every time. Main statement: rendering a leaf takes
exactly these steps.
-/

namespace TestMatrix

theorem Tally.addAll_concat (tally : Tally) (numbers : List Nat) (bytes : Nat) :
    tally.addAll (numbers ++ [bytes]) = (tally.addAll numbers).add bytes := List.foldl_concat ..

/-! ## Scripts that only ask for templates -/

namespace Script

variable {σ α β : Type}

/-- A script that asks for templates and does nothing else. -/
inductive OnlyFetches : Script α → Prop
  | done {value : α} : OnlyFetches (.done value)
  | fetch {reference : String} {next : Except RunFault String → Script α} :
    (∀ answer, OnlyFetches (next answer)) → OnlyFetches (.fetch reference next)

/-- What such a script comes to, and where it leaves the source of templates. -/
def fetched (fetch : Source (StateM σ)) (script : Script α) (s : σ) : α × σ :=
  let ((_, value), s') := play (Host.unlogged fetch fun _ => pure (.ok 0)) script .zero s
  (value, s')

theorem OnlyFetches.play_eq {script : Script α} (h : OnlyFetches script) (fetch : Source (StateM σ))
    (deliver : Sink (StateM σ)) (accepted : Tally) (s : σ) : play (Host.unlogged fetch deliver) script accepted s =
      ((accepted, (fetched fetch script s).1), (fetched fetch script s).2) := by
  induction h generalizing s with
  | done => rfl
  | fetch _ ih => exact ih _ _

end Script

namespace Rendering

open Script (OnlyFetches play)

variable {σ α β : Type}

theorem onlyFetches_ofDefect (result : Except SchemaDefect α) : OnlyFetches (ofDefect result) := by
  cases result with
  | ok a => exact .done
  | error defect => exact .done

theorem onlyFetches_fetch (reference : String) : OnlyFetches (fetch reference) := .fetch fun _ => .done

theorem onlyFetches_bind {rendering : Rendering α} {f : α → Rendering β} (h : OnlyFetches rendering)
    (hf : ∀ a, OnlyFetches (f a)) : OnlyFetches (rendering >>= f : Rendering β) := by
  change OnlyFetches (Script.bind rendering (ExceptT.bindCont f))
  induction h with
  | @done value =>
    cases value with
    | ok a => exact hf a
    | error fault => exact .done
  | fetch _ ih => exact .fetch ih

variable {host : Host (StateM σ)} {rendering : Rendering α} {accepted accepted' : Tally} {s s' : σ}

theorem play_bind_ok {a : α} (h : play host rendering accepted s = ((accepted', .ok a), s')) (f : α → Rendering β) :
    play host (rendering >>= f : Rendering β) accepted s = play host (f a) accepted' s' := by
  rw [play_bind, StateM.bind_run h]
  rfl

theorem play_bind_error {fault : RunFault} (h : play host rendering accepted s = ((accepted', .error fault), s'))
    (f : α → Rendering β) :
    play host (rendering >>= f : Rendering β) accepted s = ((accepted', .error fault), s') := by
  rw [play_bind, StateM.bind_run h]
  rfl

end Rendering

namespace Render

open Rendering
open Script (OnlyFetches play)

theorem onlyFetches_fetch (reference : String) (context : Fields) : OnlyFetches (fetch reference context) :=
  onlyFetches_bind (onlyFetches_ofDefect _) fun _ => Rendering.onlyFetches_fetch _

theorem onlyFetches_parts (context : Fields) : ∀ named : List (String × String), OnlyFetches (parts context named)
  | [] => .done
  | (_, reference) :: rest =>
    onlyFetches_bind (onlyFetches_fetch reference context) fun _ =>
      onlyFetches_bind (onlyFetches_ofDefect _) fun _ =>
        onlyFetches_bind (onlyFetches_parts context rest) fun _ => .done

theorem onlyFetches_content (required : Bool) (source : TemplateSource) (context : Fields) :
    OnlyFetches (content required source context) := by
  cases source with
  | inline text => exact onlyFetches_ofDefect _
  | external main named =>
    refine onlyFetches_bind (onlyFetches_parts context named) fun rendered => ?_
    exact onlyFetches_bind (onlyFetches_fetch main context) fun text => onlyFetches_ofDefect _

/-! ## When a rule fires -/

section
variable (context : Fields)

def Renders (pair : String × String) (left right : String) : Prop :=
  Template.render false pair.1 context = .ok left ∧ Template.render false pair.2 context = .ok right

/-- Some pair renders to equal texts, and the pairs before it render. -/
def Fires (pairs : List (String × String)) : Prop :=
  ∃ before pair after, pairs = before ++ pair :: after ∧
    (∀ earlier ∈ before, ∃ left right, Renders context earlier left right) ∧ ∃ text, Renders context pair text text

def Passes (pairs : List (String × String)) : Prop :=
  ∀ pair ∈ pairs, ∃ left right, Renders context pair left right ∧ left ≠ right

/-- A pair does not render, and all pairs before it render to different texts. -/
def Undecided (pairs : List (String × String)) (defect : SchemaDefect) : Prop :=
  ∃ before pair after, pairs = before ++ pair :: after ∧ Passes context before ∧
    (Template.render false pair.1 context = .error defect ∨
      ∃ left, Template.render false pair.1 context = .ok left ∧ Template.render false pair.2 context = .error defect)

variable {context} {pair : String × String} {pairs : List (String × String)}

theorem fires_cons {left right : String} (h : Renders context pair left right) :
    fires context (pair :: pairs) = if left = right then .ok true else fires context pairs := by
  rw [fires, h.1, h.2]
  rfl

theorem fires_of_fires (h : Fires context pairs) : fires context pairs = .ok true := by
  obtain ⟨before, pair, after, rfl, hbefore, text, hpair⟩ := h
  induction before with
  | nil => rw [List.nil_append, fires_cons hpair, if_pos rfl]
  | cons earlier before ih =>
    obtain ⟨⟨left, right, hearlier⟩, hrest⟩ := List.forall_mem_cons.mp hbefore
    rw [List.cons_append, fires_cons hearlier, ih hrest, ite_self]

theorem fires_of_passes (h : Passes context pairs) : fires context pairs = .ok false := by
  induction pairs with
  | nil => rfl
  | cons pair rest ih =>
    obtain ⟨⟨left, right, hpair, hne⟩, hrest⟩ := List.forall_mem_cons.mp h
    rw [fires_cons hpair, if_neg hne, ih hrest]

theorem fires_of_undecided {defect : SchemaDefect} (h : Undecided context pairs defect) :
    fires context pairs = .error defect := by
  obtain ⟨before, pair, after, rfl, hbefore, hpair⟩ := h
  induction before with
  | nil =>
    rw [List.nil_append, fires]
    rcases hpair with hleft | ⟨left, hleft, hright⟩
    · rw [hleft]
      rfl
    · rw [hleft, hright]
      rfl
  | cons earlier before ih =>
    obtain ⟨⟨left, right, hearlier, hne⟩, hrest⟩ := List.forall_mem_cons.mp hbefore
    rw [List.cons_append, fires_cons hearlier, if_neg hne, ih hrest]

theorem fires_cases (context : Fields) : ∀ pairs : List (String × String),
    Fires context pairs ∨ Passes context pairs ∨ ∃ defect, Undecided context pairs defect
  | [] => Or.inr (Or.inl (List.forall_mem_nil _))
  | pair :: rest => by
    cases hleft : Template.render false pair.1 context with
    | error defect =>
      exact Or.inr (Or.inr ⟨defect, [], pair, rest, rfl, List.forall_mem_nil _, Or.inl hleft⟩)
    | ok left =>
      cases hright : Template.render false pair.2 context with
      | error defect =>
        exact Or.inr (Or.inr ⟨defect, [], pair, rest, rfl, List.forall_mem_nil _, Or.inr ⟨left, hleft, hright⟩⟩)
      | ok right =>
        have hpair : Renders context pair left right := ⟨hleft, hright⟩
        by_cases hsame : left = right
        · exact Or.inl ⟨[], pair, rest, rfl, List.forall_mem_nil _, left, hsame ▸ hpair⟩
        · have hdiffer : ∃ left right, Renders context pair left right ∧ left ≠ right := ⟨left, right, hpair, hsame⟩
          rcases fires_cases context rest with h | h | ⟨defect, h⟩
          · obtain ⟨before, other, after, rfl, hbefore, hother⟩ := h
            exact Or.inl ⟨pair :: before, other, after, rfl,
              List.forall_mem_cons.mpr ⟨⟨left, right, hpair⟩, hbefore⟩, hother⟩
          · exact Or.inr (Or.inl (List.forall_mem_cons.mpr ⟨hdiffer, h⟩))
          · obtain ⟨before, other, after, rfl, hbefore, hother⟩ := h
            exact Or.inr (Or.inr ⟨defect, pair :: before, other, after, rfl,
              List.forall_mem_cons.mpr ⟨hdiffer, hbefore⟩, hother⟩)

end

/-! ## Steps -/

/-- Where a leaf stands: the context, the artifacts that were accepted, each with the number of bytes that was
answered for it, and the state of the source of templates and the destination of artifacts. -/
structure Standing (σ : Type) where
  context : Fields
  accepted : List (Artifact × Nat)
  state : σ

def Standing.numbers {σ : Type} (standing : Standing σ) : List Nat := standing.accepted.map Prod.snd

section
variable {σ : Type} (fetch : Source (StateM σ)) (deliver : Sink (StateM σ))

/-- An artifact is rendered and handed over: it is accepted, or a fault comes of it. -/
inductive Writes (required : Bool) (path : String) (source : TemplateSource) (context : Fields) (s : σ) :
    Except RunFault (Artifact × Nat) → σ → Prop
  | noPath {defect : SchemaDefect} : Template.render required path context = .error defect →
    Writes required path source context s (.error (.schema defect)) s
  | noContent {place : String} {fault : RunFault} {s' : σ} : Template.render required path context = .ok place →
    Script.fetched fetch (content required source context) s = (.error fault, s') →
    Writes required path source context s (.error fault) s'
  | refused {place text : String} {fault : RunFault} {s' s'' : σ} : Template.render required path context = .ok place →
    Script.fetched fetch (content required source context) s = (.ok text, s') →
    deliver ⟨place, text⟩ s' = (.error fault, s'') → Writes required path source context s (.error fault) s''
  | accepted {place text : String} {bytes : Nat} {s' s'' : σ} : Template.render required path context = .ok place →
    Script.fetched fetch (content required source context) s = (.ok text, s') →
    deliver ⟨place, text⟩ s' = (.ok bytes, s'') →
    Writes required path source context s (.ok (⟨place, text⟩, bytes)) s''

/-- One step after the other, up to the first that ends with a fault. -/
inductive Through {α : Type} (step : α → Standing σ → Option RunFault → Standing σ → Prop) :
    List α → Standing σ → Option RunFault → Standing σ → Prop
  | done {here : Standing σ} : Through step [] here none here
  | next {a : α} {rest : List α} {here between last : Standing σ} {stop : Option RunFault} :
    step a here none between → Through step rest between stop last → Through step (a :: rest) here stop last
  | stop {a : α} {rest : List α} {here last : Standing σ} {fault : RunFault} :
    step a here (some fault) last → Through step (a :: rest) here (some fault) last

/-- One action: an artifact is written and the context stays, or the context is extended and nothing else
changes. -/
inductive Acts (required : Bool) : WhenAction → Standing σ → Option RunFault → Standing σ → Prop
  | generates {path : String} {source : TemplateSource} {here : Standing σ} {written : Artifact × Nat} {s : σ} :
    Writes fetch deliver required path source here.context here.state (.ok written) s →
    Acts required (.generate path source) here none ⟨here.context, here.accepted ++ [written], s⟩
  | cannotGenerate {path : String} {source : TemplateSource} {here : Standing σ} {fault : RunFault} {s : σ} :
    Writes fetch deliver required path source here.context here.state (.error fault) s →
    Acts required (.generate path source) here (some fault) ⟨here.context, here.accepted, s⟩
  | extend {key template text : String} {here : Standing σ} :
    Template.render required template here.context = .ok text →
    Acts required (.setExtension key template) here none
      ⟨Fields.set here.context key (.str text), here.accepted, here.state⟩
  | cannotExtend {key template : String} {here : Standing σ} {defect : SchemaDefect} :
    Template.render required template here.context = .error defect →
    Acts required (.setExtension key template) here (some (.schema defect)) here

/-- One rule: its actions in order if it fires, and nothing if it does not. -/
inductive Obeys (required : Bool) : WhenRule → Standing σ → Option RunFault → Standing σ → Prop
  | fires {rule : WhenRule} {here last : Standing σ} {stop : Option RunFault} : Fires here.context rule.pairs →
    Through (Acts fetch deliver required) rule.actions here stop last → Obeys required rule here stop last
  | passes {rule : WhenRule} {here : Standing σ} : Passes here.context rule.pairs → Obeys required rule here none here
  | undecided {rule : WhenRule} {here : Standing σ} {defect : SchemaDefect} :
    Undecided here.context rule.pairs defect → Obeys required rule here (some (.schema defect)) here

/-- A leaf: all rules in order, and after them its own artifact, for which no substitution is required. -/
inductive Finishes (required : Bool) (path : String) (source : TemplateSource) (rules : List WhenRule)
    (here : Standing σ) : Option RunFault → Standing σ → Prop
  | stops {fault : RunFault} {last : Standing σ} : Through (Obeys fetch deliver required) rules here (some fault) last →
    Finishes required path source rules here (some fault) last
  | cannotWrite {between : Standing σ} {fault : RunFault} {s : σ} :
    Through (Obeys fetch deliver required) rules here none between →
    Writes fetch deliver false path source between.context between.state (.error fault) s →
    Finishes required path source rules here (some fault) ⟨between.context, between.accepted, s⟩
  | writes {between : Standing σ} {written : Artifact × Nat} {s : σ} :
    Through (Obeys fetch deliver required) rules here none between →
    Writes fetch deliver false path source between.context between.state (.ok written) s →
    Finishes required path source rules here none ⟨between.context, between.accepted ++ [written], s⟩

/-! ## Renderings take these steps -/

variable {fetch deliver} {required : Bool} {path : String} {source : TemplateSource}

theorem play_deliver_ok {artifact : Artifact} {bytes : Nat} {s s' : σ} (h : deliver artifact s = (.ok bytes, s'))
    (accepted : Tally) : play (Host.unlogged fetch deliver) (Rendering.deliver artifact) accepted s =
      ((accepted.add bytes, .ok ()), s') := by
  change play (Host.unlogged fetch deliver) (.deliver artifact .done) accepted s = _
  rw [play, Host.unlogged, StateM.bind_run h]
  rfl

theorem play_deliver_error {artifact : Artifact} {fault : RunFault} {s s' : σ}
    (h : deliver artifact s = (.error fault, s')) (accepted : Tally) :
    play (Host.unlogged fetch deliver) (Rendering.deliver artifact) accepted s = ((accepted, .error fault), s') := by
  change play (Host.unlogged fetch deliver) (.deliver artifact .done) accepted s = _
  rw [play, Host.unlogged, StateM.bind_run h]
  rfl

theorem play_content {context : Fields} {s s' : σ} {text : Except RunFault String}
    (h : Script.fetched fetch (content required source context) s = (text, s')) (accepted : Tally) :
    play (Host.unlogged fetch deliver) (content required source context) accepted s = ((accepted, text), s') := by
  rw [(onlyFetches_content required source context).play_eq, h]

def write {β : Type} (required : Bool) (path : String) (source : TemplateSource) (context : Fields)
    (next : Artifact → Rendering β) : Rendering β := do
  let place ← ofDefect (Template.render required path context)
  let text ← content required source context
  Rendering.deliver ⟨place, text⟩
  next ⟨place, text⟩

section
variable {β : Type} {context : Fields} {s s' : σ} (accepted : Tally) (next : Artifact → Rendering β)

theorem play_write_ok {written : Artifact × Nat}
    (h : Writes fetch deliver required path source context s (.ok written) s') :
    play (Host.unlogged fetch deliver) (write required path source context next) accepted s =
      play (Host.unlogged fetch deliver) (next written.1) (accepted.add written.2) s' := by
  cases h with
  | accepted hpath hcontent hdeliver =>
    rw [write, hpath, play_bind_ok rfl, play_bind_ok (play_content hcontent accepted),
      play_bind_ok (play_deliver_ok hdeliver accepted)]

theorem play_write_error {fault : RunFault}
    (h : Writes fetch deliver required path source context s (.error fault) s') :
    play (Host.unlogged fetch deliver) (write required path source context next) accepted s =
      ((accepted, .error fault), s') := by
  cases h with
  | noPath hpath => rw [write, hpath, play_bind_error rfl]
  | noContent hpath hcontent =>
    rw [write, hpath, play_bind_ok rfl, play_bind_error (play_content hcontent accepted)]
  | refused hpath hcontent hdeliver =>
    rw [write, hpath, play_bind_ok rfl, play_bind_ok (play_content hcontent accepted),
      play_bind_error (play_deliver_error hdeliver accepted)]

end

/-- What a rendering gives that comes so far. -/
def resultOf {α : Type} (a : α) : Option RunFault → Except RunFault α
  | none => .ok a
  | some fault => .error fault

variable (fetch deliver) in
/-- Played at one standing, the rendering ends at another. -/
def LeadsTo (rendering : Rendering Fields) (here : Standing σ) (stop : Option RunFault) (last : Standing σ) : Prop :=
  ∀ start : Tally, play (Host.unlogged fetch deliver) rendering (start.addAll here.numbers) here.state =
    ((start.addAll last.numbers, resultOf last.context stop), last.state)

theorem Standing.numbers_concat (context : Fields) (accepted : List (Artifact × Nat)) (written : Artifact × Nat)
    (s : σ) :
    (⟨context, accepted ++ [written], s⟩ : Standing σ).numbers = accepted.map Prod.snd ++ [written.2] :=
  List.map_append ..

theorem leadsTo_acts (next : WhenAction) {here last : Standing σ} {stop : Option RunFault}
    (h : Acts fetch deliver required next here stop last) :
    LeadsTo fetch deliver (action required here.context next) here stop last := by
  intro start
  cases h with
  | generates h =>
    rw [Standing.numbers_concat, Tally.addAll_concat]
    exact play_write_ok (start.addAll here.numbers) (fun _ => pure here.context) h
  | cannotGenerate h => exact play_write_error (start.addAll here.numbers) (fun _ => pure here.context) h
  | extend h => simp only [action, h]; rfl
  | cannotExtend h => simp only [action, h]; rfl

theorem leadsTo_foldlM {α : Type} {step : α → Standing σ → Option RunFault → Standing σ → Prop}
    {f : Fields → α → Rendering Fields}
    (hstep : ∀ a {here last stop}, step a here stop last → LeadsTo fetch deliver (f here.context a) here stop last)
    {list : List α} {here last : Standing σ} {stop : Option RunFault} (h : Through step list here stop last) :
    LeadsTo fetch deliver (list.foldlM f here.context) here stop last := by
  induction h with
  | done => intro start; rfl
  | next hfirst _ ih =>
    intro start
    rw [List.foldlM_cons, play_bind_ok (hstep _ hfirst start)]
    exact ih start
  | stop hfirst =>
    intro start
    rw [List.foldlM_cons, play_bind_error (hstep _ hfirst start)]
    rfl

theorem actions_eq_foldlM : ∀ (list : List WhenAction) (context : Fields),
    actions required context list = list.foldlM (action required) context
  | [], _ => rfl
  | next :: rest, context => by
    rw [actions, List.foldlM_cons]
    exact congrArg _ (funext fun context => actions_eq_foldlM rest context)

def condition (required : Bool) (context : Fields) (rule : WhenRule) : Rendering Fields := do
  if ← ofDefect (fires context rule.pairs) then rule.actions.foldlM (action required) context else pure context

theorem conditions_eq_foldlM : ∀ (rules : List WhenRule) (context : Fields),
    conditions required context rules = rules.foldlM (condition required) context
  | [], _ => rfl
  | rule :: rest, context => by
    have hrest : ∀ context, conditions required context rest = rest.foldlM (condition required) context :=
      conditions_eq_foldlM rest
    rw [conditions, List.foldlM_cons, condition, actions_eq_foldlM]
    simp only [hrest]
    cases fires context rule.pairs with
    | error defect => rfl
    | ok fired => cases fired <;> rfl

theorem leadsTo_obeys (rule : WhenRule) {here last : Standing σ} {stop : Option RunFault}
    (h : Obeys fetch deliver required rule here stop last) :
    LeadsTo fetch deliver (condition required here.context rule) here stop last := by
  cases h with
  | fires hfires hactions =>
    rw [condition, fires_of_fires hfires]
    exact leadsTo_foldlM leadsTo_acts hactions
  | passes hpasses =>
    rw [condition, fires_of_passes hpasses]
    exact fun start => rfl
  | undecided hundecided =>
    rw [condition, fires_of_undecided hundecided]
    exact fun start => rfl

theorem play_conditions {rules : List WhenRule} {here last : Standing σ} {stop : Option RunFault}
    (h : Through (Obeys fetch deliver required) rules here stop last) :
    LeadsTo fetch deliver (conditions required here.context rules) here stop last := by
  rw [conditions_eq_foldlM]
  exact leadsTo_foldlM leadsTo_obeys h

/-! ## There is always a step -/

section
variable (fetch deliver)

theorem writes_total (required : Bool) (path : String) (source : TemplateSource) (context : Fields) (s : σ) :
    ∃ answer s', Writes fetch deliver required path source context s answer s' := by
  cases hpath : Template.render required path context with
  | error defect => exact ⟨_, _, .noPath hpath⟩
  | ok place =>
    obtain ⟨text, s', hcontent⟩ : ∃ text s', Script.fetched fetch (content required source context) s = (text, s') :=
      ⟨_, _, rfl⟩
    cases text with
    | error fault => exact ⟨_, _, .noContent hpath hcontent⟩
    | ok text =>
      obtain ⟨answer, s'', hdeliver⟩ : ∃ answer s'', deliver ⟨place, text⟩ s' = (answer, s'') := ⟨_, _, rfl⟩
      cases answer with
      | error fault => exact ⟨_, _, .refused hpath hcontent hdeliver⟩
      | ok bytes => exact ⟨_, _, .accepted hpath hcontent hdeliver⟩

theorem through_total {α : Type} {step : α → Standing σ → Option RunFault → Standing σ → Prop}
    (hstep : ∀ a here, ∃ stop last, step a here stop last) :
    ∀ (list : List α) (here : Standing σ), ∃ stop last, Through step list here stop last
  | [], here => ⟨none, here, .done⟩
  | a :: rest, here => by
    obtain ⟨stop, between, hfirst⟩ := hstep a here
    cases stop with
    | some fault => exact ⟨_, _, .stop hfirst⟩
    | none =>
      obtain ⟨stop, last, hrest⟩ := through_total hstep rest between
      exact ⟨stop, last, .next hfirst hrest⟩

theorem acts_total (required : Bool) (next : WhenAction) (here : Standing σ) :
    ∃ stop last, Acts fetch deliver required next here stop last := by
  cases next with
  | generate path source =>
    obtain ⟨answer, s, h⟩ := writes_total fetch deliver required path source here.context here.state
    cases answer with
    | error fault => exact ⟨_, _, .cannotGenerate h⟩
    | ok written => exact ⟨_, _, .generates h⟩
  | setExtension key template =>
    cases h : Template.render required template here.context with
    | error defect => exact ⟨_, _, .cannotExtend h⟩
    | ok text => exact ⟨_, _, .extend h⟩

theorem obeys_total (required : Bool) (rule : WhenRule) (here : Standing σ) :
    ∃ stop last, Obeys fetch deliver required rule here stop last := by
  rcases fires_cases here.context rule.pairs with h | h | ⟨defect, h⟩
  · obtain ⟨stop, last, hactions⟩ := through_total (acts_total fetch deliver required) rule.actions here
    exact ⟨stop, last, .fires h hactions⟩
  · exact ⟨_, _, .passes h⟩
  · exact ⟨_, _, .undecided h⟩

theorem finishes_total (required : Bool) (path : String) (source : TemplateSource) (rules : List WhenRule)
    (here : Standing σ) :
    ∃ stop last, Finishes fetch deliver required path source rules here stop last := by
  obtain ⟨stop, between, hrules⟩ := through_total (obeys_total fetch deliver required) rules here
  cases stop with
  | some fault => exact ⟨_, _, .stops hrules⟩
  | none =>
    obtain ⟨answer, s, h⟩ := writes_total fetch deliver false path source between.context between.state
    cases answer with
    | error fault => exact ⟨_, _, .cannotWrite hrules h⟩
    | ok written => exact ⟨_, _, .writes hrules h⟩

end

/-! ## The leaf -/

theorem play_leaf {leafPath : TreePath} {rule : LeafRule} (hpath : rule.path = some path)
    (hsource : rule.template = some source) {context : Fields} {s : σ} {stop : Option RunFault} {last : Standing σ}
    (h : Finishes fetch deliver required path source rule.conditions ⟨context, [], s⟩ stop last) (tally : Tally) :
    play (Host.unlogged fetch deliver) (leaf required leafPath rule context) tally s =
      ((tally.addAll last.numbers, resultOf () stop), last.state) := by
  have hleaf : leaf required leafPath rule context =
      (conditions required context rule.conditions >>= fun context =>
        write false path source context fun artifact => note ⟨.debug, "leaf rendered",
          [("leaf", .str leafPath.text), ("path", .str artifact.path)]⟩ : Rendering Unit) := by
    rw [leaf, hpath, hsource]
    rfl
  rw [hleaf]
  cases h with
  | stops hrules => exact play_bind_error (play_conditions hrules tally) _
  | cannotWrite hrules hwrite =>
    refine (play_bind_ok (play_conditions hrules tally) _).trans ?_
    exact play_write_error _ _ hwrite
  | writes hrules hwrite =>
    refine (play_bind_ok (play_conditions hrules tally) _).trans ?_
    rw [play_write_ok _ _ hwrite, Standing.numbers_concat, Tally.addAll_concat]
    rfl

/-- **Rendering a leaf.** With any source of templates and any destination, a leaf with a path and a template
goes through its rules in order, each on the context that the ones before left, and hands over its
own artifact last; it stops at the first step that comes to a fault. The tally grows by the artifacts
that were accepted and by the bytes answered for them, and an extension changes its own key and no
other. -/
theorem leaf_runs_rules {leafPath : TreePath} {rule : LeafRule} (hpath : rule.path = some path)
    (hsource : rule.template = some source) (context : Fields) (tally : Tally) (s : σ) :
    (∀ tally' result s', play (Host.unlogged fetch deliver) (leaf required leafPath rule context) tally s =
        ((tally', result), s') ↔
      ∃ stop last, Finishes fetch deliver required path source rule.conditions ⟨context, [], s⟩ stop last ∧
        tally' = ⟨tally.artifacts + last.accepted.length, (last.accepted.map Prod.snd).foldl
          (fun sum bytes => min (sum + bytes) Tally.limit) tally.bytes⟩ ∧
        result = resultOf () stop ∧ s' = last.state) ∧
    ∀ (context : Fields) key text name, (Fields.set context key (.str text)).lookup name =
      if name = key then some (.str text) else context.lookup name := by
  refine ⟨fun tally' result s' => ?_, fun context key text name => Fields.lookup_set context key name _⟩
  constructor
  · intro hplay
    obtain ⟨stop, last, hfinishes⟩ := finishes_total fetch deliver required path source rule.conditions ⟨context, [], s⟩
    rw [play_leaf hpath hsource hfinishes tally, Tally.addAll_eq, Standing.numbers, List.length_map] at hplay
    cases hplay
    exact ⟨stop, last, hfinishes, rfl, rfl, rfl⟩
  · intro h
    obtain ⟨stop, last, hfinishes, rfl, rfl, rfl⟩ := h
    rw [play_leaf hpath hsource hfinishes tally, Tally.addAll_eq, Standing.numbers, List.length_map]

end

/-- A rule that extends the context before it writes, and a leaf that names what was stored. -/
def extendingLeaf : LeafRule where
  path := some "%(name)s.%(ext)s"
  template := some (.inline "%(ext)s")
  action := .generate
  conditions := [⟨[("%(name)s", "b"), ("%(name)s", "a")],
    [.setExtension "ext" "txt", .generate "%(name)s.extra" (.inline "ext=%(ext)s")]⟩]
  defaults := []

/-- The extension is seen by the action behind it and by the leaf itself. -/
theorem extension_seen_behind : extendingLeaf.path = some "%(name)s.%(ext)s" ∧
    extendingLeaf.template = some (.inline "%(ext)s") ∧
    play (Host.unlogged (fun _ => pure (.ok "")) Sink.memory) (leaf false .root extendingLeaf [("name", .str "a")])
      .zero [] = ((⟨2, 10⟩, .ok ()), [⟨"a.extra", "ext=txt"⟩, ⟨"a.txt", "txt"⟩]) := by
  refine ⟨rfl, rfl, ((leaf_runs_rules rfl rfl [("name", .str "a")] .zero []).1 _ _ _).mpr
    ⟨none, ⟨[("name", .str "a"), ("ext", .str "txt")], [(⟨"a.extra", "ext=txt"⟩, 7), (⟨"a.txt", "txt"⟩, 3)],
      [⟨"a.extra", "ext=txt"⟩, ⟨"a.txt", "txt"⟩]⟩, ?_, rfl, rfl, rfl⟩⟩
  -- the first pair compares different texts, the second equal ones
  have hfires : Fires [("name", .str "a")] [("%(name)s", "b"), ("%(name)s", "a")] :=
    ⟨[("%(name)s", "b")], ("%(name)s", "a"), [], rfl, fun earlier hearlier =>
      List.mem_singleton.mp hearlier ▸ ⟨"a", "b", rfl, rfl⟩, "a", rfl, rfl⟩
  have hactions : Through (Acts (fun _ => pure (.ok "")) Sink.memory false)
      [.setExtension "ext" "txt", .generate "%(name)s.extra" (.inline "ext=%(ext)s")]
      ⟨[("name", .str "a")], [], []⟩ none
      ⟨[("name", .str "a"), ("ext", .str "txt")], [(⟨"a.extra", "ext=txt"⟩, 7)], [⟨"a.extra", "ext=txt"⟩]⟩ :=
    .next (.extend rfl) (.next (.generates (.accepted rfl rfl rfl)) .done)
  have hrules : Through (Obeys (fun _ => pure (.ok "")) Sink.memory false) extendingLeaf.conditions
      ⟨[("name", .str "a")], [], []⟩ none
      ⟨[("name", .str "a"), ("ext", .str "txt")], [(⟨"a.extra", "ext=txt"⟩, 7)], [⟨"a.extra", "ext=txt"⟩]⟩ :=
    .next (.fires hfires hactions) .done
  have hown : Writes (fun _ => pure (.ok "")) Sink.memory false "%(name)s.%(ext)s" (.inline "%(ext)s")
      [("name", .str "a"), ("ext", .str "txt")] [⟨"a.extra", "ext=txt"⟩] (.ok (⟨"a.txt", "txt"⟩, 3))
      [⟨"a.extra", "ext=txt"⟩, ⟨"a.txt", "txt"⟩] :=
    .accepted rfl rfl rfl
  exact .writes hrules hown

end Render

end TestMatrix
