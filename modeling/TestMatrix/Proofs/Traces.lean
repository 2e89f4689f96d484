import Mathlib.Algebra.Ring.Nat
import TestMatrix.Proofs.Outcomes
import TestMatrix.Render.Leaf
import TestMatrix.Run.Hosts

/-!
# Traces of scripts

What a script hands over while every artifact is accepted, and what it ends with, is fixed by the
templates. A rendering ends with the fault of the first artifact that is refused; so whatever the
destination does, what it has accepted is a beginning of the trace. Hosts whose source of templates
changes have no trace, but on them too a script is played piece by piece.
-/

namespace TestMatrix

def Artifact.size (artifact : Artifact) : Nat := artifact.content.utf8ByteSize

namespace Tally

/-- One more artifact for each of these numbers of bytes. -/
def addAll (tally : Tally) (numbers : List Nat) : Tally := numbers.foldl Tally.add tally

theorem addAll_eq : ∀ (numbers : List Nat) (tally : Tally), tally.addAll numbers =
    ⟨tally.artifacts + numbers.length, numbers.foldl (fun sum bytes => min (sum + bytes) limit) tally.bytes⟩
  | [], _ => rfl
  | bytes :: rest, tally => by
    rw [addAll, List.foldl_cons, ← addAll, addAll_eq rest, List.length_cons, List.foldl_cons, add]
    simp only [Tally.mk.injEq, and_true]
    omega

theorem foldl_bytes : ∀ (numbers : List Nat) (start : Nat), start ≤ limit →
    numbers.foldl (fun sum bytes => min (sum + bytes) limit) start = min (start + numbers.sum) limit
  | [], start, h => (min_eq_left h).symm
  | bytes :: rest, start, _ => by
    rw [List.foldl_cons, foldl_bytes rest _ (min_le_right ..), List.sum_cons]
    omega

theorem addAll_zero (numbers : List Nat) : zero.addAll numbers = ⟨numbers.length, min numbers.sum limit⟩ := by
  rw [addAll_eq, zero, foldl_bytes numbers 0 (Nat.zero_le _), Nat.zero_add, Nat.zero_add]

end Tally

/-- What is handed over, in order, and what comes of it. -/
structure Trace (α : Type) where
  artifacts : List Artifact
  value : α

namespace Trace

variable {α β : Type}

def after (earlier : List Artifact) (trace : Trace α) : Trace α :=
  ⟨earlier ++ trace.artifacts, trace.value⟩

/-- One after the other, if the first ends well. -/
def andThen (first : Trace (Except RunFault α)) (next : α → Trace (Except RunFault β)) :
    Trace (Except RunFault β) :=
  match first.value with
  | .ok a => (next a).after first.artifacts
  | .error fault => ⟨first.artifacts, .error fault⟩

/-- All in turn, up to the first that ends with a fault. -/
def sequence : List (Trace (Except RunFault Unit)) → Trace (Except RunFault Unit)
  | [] => ⟨[], .ok ()⟩
  | first :: rest => first.andThen fun () => sequence rest

theorem sequence_of_ok : ∀ {list : List (Trace (Except RunFault Unit))},
    (∀ trace ∈ list, trace.value = .ok ()) → sequence list = ⟨list.flatMap Trace.artifacts, .ok ()⟩
  | [], _ => rfl
  | first :: rest, h => by
    obtain ⟨hfirst, hrest⟩ := List.forall_mem_cons.mp h
    rw [sequence, andThen, hfirst, sequence_of_ok hrest]
    rfl

theorem ok_of_sequence : ∀ {list : List (Trace (Except RunFault Unit))},
    (sequence list).value = .ok () → ∀ trace ∈ list, trace.value = .ok ()
  | [], _ => by simp
  | first :: rest, h => by
    rw [sequence, andThen] at h
    cases hfirst : first.value with
    | error fault => rw [hfirst] at h; cases h
    | ok u =>
      rw [hfirst] at h
      exact List.forall_mem_cons.mpr ⟨hfirst, ok_of_sequence h⟩

theorem error_of_andThen {first : Trace (Except RunFault α)}
    {next : α → Trace (Except RunFault β)} {fault : RunFault} (h : (first.andThen next).value = .error fault) :
    first.value = .error fault ∨ ∃ a, (next a).value = .error fault := by
  unfold andThen at h
  cases hfirst : first.value with
  | ok a =>
    rw [hfirst] at h
    exact Or.inr ⟨a, h⟩
  | error fault' =>
    rw [hfirst] at h
    cases h
    exact Or.inl rfl

theorem error_of_sequence {fault : RunFault} : ∀ {list : List (Trace (Except RunFault Unit))},
    (sequence list).value = .error fault → ∃ trace ∈ list, trace.value = .error fault
  | [], h => by cases h
  | first :: rest, h => by
    rcases error_of_andThen h with hfirst | ⟨u, hrest⟩
    · exact ⟨first, by simp, hfirst⟩
    · obtain ⟨trace, hmem, htrace⟩ := error_of_sequence hrest
      exact ⟨trace, List.mem_cons_of_mem _ hmem, htrace⟩

/-- What comes of a run in which this artifact was refused, or none. -/
def outcome (trace : Trace (Except RunFault α)) : Option RunFault → Except RunFault α
  | some fault => .error fault
  | none => trace.value

end Trace

section
variable {m : Type → Type} [Monad m]

/-- Hands over artifacts in turn, up to the first that is refused. Gives the numbers of bytes that were
answered for those accepted, and the fault of the refusal if there was one. -/
def handOver (deliver : Sink m) : List Artifact → m (List Nat × Option RunFault)
  | [] => pure ([], none)
  | artifact :: rest => do
    match ← deliver artifact with
    | .ok bytes =>
      let (numbers, refusal) ← handOver deliver rest
      pure (bytes :: numbers, refusal)
    | .error fault => pure ([], some fault)

/-- Hands over a trace from a tally on: what was accepted in the end, and what comes of it. -/
def Trace.handOver {α : Type} (deliver : Sink m) (trace : Trace (Except RunFault α)) (accepted : Tally) :
    m (Tally × Except RunFault α) := do
  let (numbers, refusal) ← TestMatrix.handOver deliver trace.artifacts
  pure (accepted.addAll numbers, trace.outcome refusal)

/-- A host that keeps no notes. -/
def Host.unlogged (fetch : Source m) (deliver : Sink m) : Host m := ⟨fetch, deliver, fun _ => pure ()⟩

/-- A host that answers from these templates and keeps no notes. -/
def Host.quiet (read : String → Except RunFault String) (deliver : Sink m) : Host m :=
  Host.unlogged (fun reference => pure (read reference)) deliver

end

/-! ## Destinations that keep a state -/

section
variable {σ : Type} (deliver : Sink (StateM σ))

/-- Whether an artifact is accepted does not depend on what came before it. -/
def Sink.IsSteadfast : Prop :=
  ∀ artifact s s', (∃ bytes, (deliver artifact s).1 = .ok bytes) → ∃ bytes, (deliver artifact s').1 = .ok bytes

/-- A destination after it was handed these artifacts. -/
def Sink.after (artifacts : List Artifact) (s : σ) : σ :=
  artifacts.foldl (fun s artifact => (deliver artifact s).2) s

variable {deliver}

theorem handOver_cons {artifact : Artifact} {s next : σ} {bytes : Nat} (h : deliver artifact s = (.ok bytes, next))
    (rest : List Artifact) :
    handOver deliver (artifact :: rest) s =
      ((bytes :: (handOver deliver rest next).1.1, (handOver deliver rest next).1.2),
        (handOver deliver rest next).2) := by
  rw [handOver, StateM.bind_run h]
  rfl

theorem handOver_refused {artifact : Artifact} {s next : σ} {fault : RunFault}
    (h : deliver artifact s = (.error fault, next)) (rest : List Artifact) :
    handOver deliver (artifact :: rest) s = (([], some fault), next) := by
  rw [handOver, StateM.bind_run h]
  rfl

theorem refused_of_handOver {fault : RunFault} : ∀ (artifacts : List Artifact) (s : σ),
    (handOver deliver artifacts s).1.2 = some fault → ∃ artifact s', (deliver artifact s').1 = .error fault
  | [], _, h => by cases h
  | artifact :: rest, s, h => by
    rcases hanswer : deliver artifact s with ⟨answer, next⟩
    cases answer with
    | error other =>
      rw [handOver_refused hanswer] at h
      cases h
      exact ⟨artifact, s, congrArg Prod.fst hanswer⟩
    | ok bytes =>
      rw [handOver_cons hanswer] at h
      exact refused_of_handOver rest next h

/-- Where nothing is refused, each artifact was accepted at some state. -/
theorem accepted_of_handOver : ∀ {artifacts : List Artifact} {s : σ},
    (handOver deliver artifacts s).1.2 = none →
    ∀ artifact ∈ artifacts, ∃ bytes before, (deliver artifact before).1 = .ok bytes
  | [], _, _ => List.forall_mem_nil _
  | artifact :: rest, s, h => by
    rcases hanswer : deliver artifact s with ⟨answer, next⟩
    cases answer with
    | error fault =>
      rw [handOver_refused hanswer] at h
      cases h
    | ok bytes =>
      rw [handOver_cons hanswer] at h
      exact List.forall_mem_cons.mpr ⟨⟨bytes, s, congrArg Prod.fst hanswer⟩, accepted_of_handOver h⟩

/-- Where nothing is refused, the destination ends up as it does when it is handed all of them. -/
theorem after_of_handOver : ∀ {artifacts : List Artifact} {s : σ},
    (handOver deliver artifacts s).1.2 = none →
    (handOver deliver artifacts s).1.1.length = artifacts.length ∧
      (handOver deliver artifacts s).2 = Sink.after deliver artifacts s
  | [], _, _ => ⟨rfl, rfl⟩
  | artifact :: rest, s, h => by
    rcases hanswer : deliver artifact s with ⟨answer, next⟩
    cases answer with
    | error fault =>
      rw [handOver_refused hanswer] at h
      cases h
    | ok bytes =>
      rw [handOver_cons hanswer] at h ⊢
      obtain ⟨hlength, hafter⟩ := after_of_handOver h
      rw [Sink.after, List.foldl_cons, hanswer]
      exact ⟨congrArg (· + 1) hlength, hafter⟩

theorem unrefused_of_accepted : ∀ {artifacts : List Artifact},
    (∀ artifact ∈ artifacts, ∀ s, ∃ bytes, (deliver artifact s).1 = .ok bytes) →
    ∀ s, (handOver deliver artifacts s).1.2 = none
  | [], _, _ => rfl
  | artifact :: rest, h, s => by
    obtain ⟨hfirst, hrest⟩ := List.forall_mem_cons.mp h
    obtain ⟨bytes, hbytes⟩ := hfirst s
    rw [handOver_cons (Prod.ext hbytes rfl)]
    exact unrefused_of_accepted hrest _

end

/-! ## Traces of scripts and orderly scripts -/

namespace Script

variable {α β : Type} (read : String → Except RunFault String)

/-- The trace of a script that starts at a tally and is told that all bytes of an artifact were written. -/
def trace : Script α → Tally → Trace α
  | .done value, _ => ⟨[], value⟩
  | .fetch reference next, accepted => trace (next (read reference)) accepted
  | .deliver artifact next, accepted => (trace (next (.ok ())) (accepted.add artifact.size)).after [artifact]
  | .tally next, accepted => trace (next accepted) accepted
  | .note _ next, accepted => trace next accepted

theorem trace_bind (f : α → Script β) : ∀ (script : Script α) (accepted : Tally),
    trace read (script.bind f) accepted =
      (trace read (f (trace read script accepted).value)
        (accepted.addAll ((trace read script accepted).artifacts.map Artifact.size))).after
        (trace read script accepted).artifacts
  | .done _, _ => rfl
  | .fetch reference next, accepted => trace_bind f (next (read reference)) accepted
  | .deliver artifact next, accepted =>
    congrArg (Trace.after [artifact]) (trace_bind f (next (.ok ())) (accepted.add artifact.size))
  | .tally next, accepted => trace_bind f (next accepted) accepted
  | .note _ next, accepted => trace_bind f next accepted

/-- A script that does nothing more, apart from notes, and ends with this value. -/
inductive EndsIn (value : α) : Script α → Prop
  | done : EndsIn value (.done value)
  | note {event : Event} {next : Script α} : EndsIn value next → EndsIn value (.note event next)

abbrev Fails (fault : RunFault) (script : Script (Except RunFault α)) : Prop := EndsIn (.error fault) script

/-- A script that ends with the fault of a refusal, and that asks for the tally only if it may. -/
inductive Orderly (mayAsk : Prop) : Script (Except RunFault α) → Prop
  | done {value : Except RunFault α} : Orderly mayAsk (.done value)
  | fetch {reference : String} {next : Except RunFault String → Script (Except RunFault α)} :
    (∀ answer, Orderly mayAsk (next answer)) → Orderly mayAsk (.fetch reference next)
  | deliver {artifact : Artifact} {next : Except RunFault Unit → Script (Except RunFault α)} :
    Orderly mayAsk (next (.ok ())) → (∀ fault, Fails fault (next (.error fault))) →
    Orderly mayAsk (.deliver artifact next)
  | tally {next : Tally → Script (Except RunFault α)} :
    mayAsk → (∀ accepted, Orderly mayAsk (next accepted)) → Orderly mayAsk (.tally next)
  | note {event : Event} {next : Script (Except RunFault α)} :
    Orderly mayAsk next → Orderly mayAsk (.note event next)

theorem Orderly.trace_eq {script : Script (Except RunFault α)} (h : Orderly False script) :
    ∀ accepted other : Tally, trace read script accepted = trace read script other := by
  induction h with
  | done => intro _ _; rfl
  | fetch _ ih => intro accepted other; exact ih (read _) accepted other
  | deliver _ _ ih => intro accepted other; exact congrArg (Trace.after _) (ih _ _)
  | tally h => exact h.elim
  | note _ ih => intro accepted other; exact ih accepted other

theorem EndsIn.trace_eq {value : α} {script : Script α} (h : EndsIn value script) (accepted : Tally) :
    trace read script accepted = ⟨[], value⟩ := by
  induction h with
  | done => rfl
  | note _ ih => exact ih

instance : LawfulMonad Script := LawfulMonad.mk'
  Script
  (fun script => by
    induction script with
    | done value => rfl
    | fetch reference next ih => exact congrArg _ (funext ih)
    | deliver artifact next ih => exact congrArg _ (funext ih)
    | tally next ih => exact congrArg _ (funext ih)
    | note event next ih => exact congrArg _ ih)
  (fun _ _ => rfl)
  (fun script f g => by
    induction script with
    | done value => rfl
    | fetch reference next ih => exact congrArg _ (funext ih)
    | deliver artifact next ih => exact congrArg _ (funext ih)
    | tally next ih => exact congrArg _ (funext ih)
    | note event next ih => exact congrArg _ ih)

section
variable {m : Type → Type} [Monad m] [LawfulMonad m]

/-- Scripts one after the other are played one after the other. -/
theorem play_bind (host : Host m) (f : α → Script β) (script : Script α) :
    ∀ accepted : Tally, play host (script.bind f) accepted =
      play host script accepted >>= fun played => play host (f played.2) played.1 := by
  induction script with
  | done value => intro accepted; simp only [bind, play, pure_bind]
  | fetch reference next ih => intro accepted; simp only [bind, play, bind_assoc, ih]
  | deliver artifact next ih =>
    intro accepted
    simp only [bind, play, bind_assoc]
    refine bind_congr fun answer => ?_
    cases answer with
    | ok bytes => exact ih _ _
    | error fault => exact ih _ _
  | tally next ih => intro accepted; exact ih accepted accepted
  | note event next ih => intro accepted; simp only [bind, play, bind_assoc, ih]

variable {fetch : Source m} (deliver : Sink m)

theorem EndsIn.play_eq {value : α} {script : Script α} (h : EndsIn value script) (accepted : Tally) :
    play (Host.unlogged fetch deliver) script accepted = pure (accepted, value) := by
  induction h with
  | done => rfl
  | note _ ih => rw [play]; simp only [Host.unlogged, pure_bind]; exact ih

/-- Played with any destination, an orderly script hands over its trace. -/
theorem Orderly.play_eq {script : Script (Except RunFault α)} (h : Orderly False script) :
    ∀ accepted : Tally, play (Host.quiet read deliver) script accepted =
      (trace read script accepted).handOver deliver accepted := by
  induction h with
  | done =>
    intro accepted
    simp only [play, trace, Trace.handOver, handOver, pure_bind]
    rfl
  | @fetch reference next _ ih =>
    intro accepted
    simp only [play, Host.quiet, Host.unlogged, pure_bind]
    exact ih (read reference) accepted
  | @deliver artifact next hnext hfails ih =>
    intro accepted
    simp only [play, trace, Trace.after, Trace.handOver, List.cons_append, List.nil_append, handOver,
      bind_assoc]
    refine bind_congr fun answer => ?_
    cases answer with
    | ok bytes =>
      -- what was answered is not what the trace counts with, but nothing asks for it
      rw [hnext.trace_eq read _ (accepted.add bytes)]
      simp only [bind_assoc, pure_bind]
      exact ih (accepted.add bytes)
    | error fault =>
      simp only [pure_bind]
      exact (hfails fault).play_eq deliver accepted
  | tally h => exact h.elim
  | note _ ih => intro accepted; rw [play]; simp only [Host.quiet, Host.unlogged, pure_bind]; exact ih accepted

end

end Script

/-! ## Renderings -/

namespace Rendering

variable {α β : Type}

open Script (Fails Orderly trace)

theorem fails_bind {fault : RunFault} {script : Script (Except RunFault α)} (h : Fails fault script)
    (f : α → Rendering β) : Fails fault (script.bind (ExceptT.bindCont f)) := by
  induction h with
  | done => exact .done
  | note _ ih => exact .note ih

theorem fails_tryCatch {fault : RunFault} {script : Script (Except RunFault α)} (h : Fails fault script)
    {handler : RunFault → Rendering α} (hhandler : ∀ fault, Fails fault (handler fault)) :
    Fails fault (tryCatch (script : Rendering α) handler : Rendering α) := by
  induction h with
  | done => exact hhandler fault
  | note _ ih => exact .note ih

section
variable {mayAsk : Prop}

theorem orderly_of_fails {fault : RunFault} {script : Script (Except RunFault α)} (h : Fails fault script) :
    Orderly mayAsk script := by
  induction h with
  | done => exact .done
  | note _ ih => exact .note ih

theorem orderly_pure (a : α) : Orderly mayAsk (pure a : Rendering α) := .done

theorem orderly_throw (fault : RunFault) : Orderly mayAsk (throw fault : Rendering α) := .done

theorem orderly_ofDefect (result : Except SchemaDefect α) : Orderly mayAsk (ofDefect result) := by
  cases result with
  | ok a => exact .done
  | error defect => exact .done

theorem orderly_fetch (reference : String) : Orderly mayAsk (fetch reference) := .fetch fun _ => .done

theorem orderly_deliver (artifact : Artifact) : Orderly mayAsk (deliver artifact) :=
  .deliver .done fun _ => .done

theorem orderly_note (event : Event) : Orderly mayAsk (note event) := .note .done

theorem orderly_tally (h : mayAsk) : Orderly mayAsk tally := .tally h fun _ => .done

theorem orderly_bind {rendering : Rendering α} {f : α → Rendering β} (h : Orderly mayAsk rendering)
    (hf : ∀ a, Orderly mayAsk (f a)) : Orderly mayAsk (rendering >>= f : Rendering β) := by
  change Orderly mayAsk (Script.bind rendering (ExceptT.bindCont f))
  induction h with
  | @done value =>
    cases value with
    | ok a => exact hf a
    | error fault => exact .done
  | fetch _ ih => exact .fetch ih
  | deliver _ hfails ih => exact .deliver ih fun fault => fails_bind (hfails fault) f
  | tally hask _ ih => exact .tally hask ih
  | note _ ih => exact .note ih

theorem orderly_tryCatch {rendering : Rendering α} {handler : RunFault → Rendering α}
    (h : Orderly mayAsk rendering) (hhandler : ∀ fault, Fails fault (handler fault)) :
    Orderly mayAsk (tryCatch rendering handler : Rendering α) := by
  induction h with
  | @done value =>
    cases value with
    | ok a => exact .done
    | error fault => exact orderly_of_fails (hhandler fault)
  | fetch _ ih => exact .fetch ih
  | deliver _ hfails ih => exact .deliver ih fun fault => fails_tryCatch (hfails fault) hhandler
  | tally hask _ ih => exact .tally hask ih
  | note _ ih => exact .note ih

end

variable (read : String → Except RunFault String)

theorem trace_bind (rendering : Rendering α) (f : α → Rendering β) (accepted : Tally) :
    trace read (rendering >>= f : Rendering β) accepted =
      (trace read rendering accepted).andThen fun a =>
        trace read (f a) (accepted.addAll ((trace read rendering accepted).artifacts.map Artifact.size)) := by
  change trace read (Script.bind rendering (ExceptT.bindCont f)) accepted = _
  rw [Script.trace_bind, Trace.andThen]
  cases (trace read rendering accepted).value with
  | ok a => rfl
  | error fault => exact congrArg (Trace.mk · _) (List.append_nil _)

/-! ## Renderings that come to the same -/

section
variable {m : Type → Type} [Monad m]

/-- Goes on from what a rendering has come to, unless that is a fault. -/
def onward (next : α → Tally → m (Tally × Except RunFault β)) :
    Tally × Except RunFault α → m (Tally × Except RunFault β)
  | (tally, .ok a) => next a tally
  | (tally, .error fault) => pure (tally, .error fault)

/-- A host ends with the same after both, and in the same state. -/
def Same (host : Host m) (first second : Rendering α) : Prop :=
  ∀ accepted, Script.play host first accepted = Script.play host second accepted

variable {host : Host m}

theorem Same.refl (rendering : Rendering α) : Same host rendering rendering := fun _ => rfl

theorem Same.trans {first second third : Rendering α} (h : Same host first second) (h' : Same host second third) :
    Same host first third := fun accepted => (h accepted).trans (h' accepted)

variable [LawfulMonad m]

theorem play_bind (rendering : Rendering α) (f : α → Rendering β) (accepted : Tally) :
    Script.play host (rendering >>= f : Rendering β) accepted =
      Script.play host rendering accepted >>= onward fun a => Script.play host (f a) := by
  change Script.play host (Script.bind rendering (ExceptT.bindCont f)) accepted = _
  rw [Script.play_bind]
  refine bind_congr fun played => ?_
  obtain ⟨tally, value⟩ := played
  cases value <;> rfl

theorem Same.bind {first second : Rendering α} {f g : α → Rendering β} (h : Same host first second)
    (hnext : ∀ a, Same host (f a) (g a)) :
    Same host (first >>= f : Rendering β) (second >>= g : Rendering β) := by
  intro accepted
  rw [play_bind, play_bind, h accepted]
  refine bind_congr fun played => ?_
  obtain ⟨tally, value⟩ := played
  cases value with
  | ok a => exact hnext a tally
  | error fault => rfl

variable {fetch : Source m} {deliver : Sink m}

theorem same_of_endsIn {value : Except RunFault α} {rendering : Rendering α} (h : Script.EndsIn value rendering)
    (f : α → Rendering β) :
    Same (Host.unlogged fetch deliver) (rendering >>= f : Rendering β) (ExceptT.mk (.done value) >>= f : Rendering β) :=
  .bind (fun accepted => h.play_eq deliver accepted) fun _ => .refl _

theorem same_note (event : Event) (f : Unit → Rendering β) :
    Same (Host.unlogged fetch deliver) (note event >>= f : Rendering β) (f ()) :=
  same_of_endsIn (.note .done) f

/-- Of a fault that is noted and thrown again nothing is seen. -/
theorem same_tryCatch (rendering : Rendering α) {handler : RunFault → Rendering α}
    (hhandler : ∀ fault, Fails fault (handler fault)) :
    Same (Host.unlogged fetch deliver) (tryCatch rendering handler : Rendering α) rendering := by
  intro accepted
  change Script.play _ (Script.bind rendering _) accepted = _
  rw [Script.play_bind]
  refine (bind_congr fun played => ?_).trans (bind_pure _)
  obtain ⟨tally, value⟩ := played
  cases value with
  | ok a => rfl
  | error fault => exact (hhandler fault).play_eq deliver tally

end

end Rendering

/-! ## Renderings of a leaf are orderly -/

namespace Render

open Rendering Script

variable {mayAsk : Prop} (required : Bool)

theorem orderly_fetch (reference : String) (context : Fields) : Orderly mayAsk (fetch reference context) :=
  orderly_bind (orderly_ofDefect _) fun _ => Rendering.orderly_fetch _

theorem orderly_parts (context : Fields) : ∀ named : List (String × String),
    Orderly mayAsk (parts context named)
  | [] => orderly_pure _
  | (_, reference) :: rest =>
    orderly_bind (orderly_fetch reference context) fun _ =>
      orderly_bind (orderly_ofDefect _) fun _ =>
        orderly_bind (orderly_parts context rest) fun _ => orderly_pure _

theorem orderly_content (source : TemplateSource) (context : Fields) :
    Orderly mayAsk (content required source context) := by
  cases source with
  | inline text => exact orderly_ofDefect _
  | external main named =>
    refine orderly_bind (orderly_parts context named) fun rendered => ?_
    exact orderly_bind (orderly_fetch main context) fun text => orderly_ofDefect _

theorem orderly_action (context : Fields) (next : WhenAction) :
    Orderly mayAsk (action required context next) := by
  cases next with
  | generate path template =>
    refine orderly_bind (orderly_ofDefect _) fun path => ?_
    refine orderly_bind (orderly_content required template context) fun text => ?_
    exact orderly_bind (orderly_deliver _) fun _ => orderly_pure _
  | setExtension key template => exact orderly_bind (orderly_ofDefect _) fun text => orderly_pure _

theorem orderly_actions : ∀ (list : List WhenAction) (context : Fields),
    Orderly mayAsk (actions required context list)
  | [], _ => orderly_pure _
  | next :: rest, context =>
    orderly_bind (orderly_action required context next) fun context => orderly_actions rest context

theorem orderly_conditions : ∀ (rules : List WhenRule) (context : Fields),
    Orderly mayAsk (conditions required context rules)
  | [], _ => orderly_pure _
  | rule :: rest, context => by
    refine orderly_bind (orderly_ofDefect _) fun fired => ?_
    cases fired with
    | true =>
      exact orderly_bind (orderly_actions required rule.actions context) fun context =>
        orderly_conditions rest context
    | false => exact orderly_conditions rest context

theorem orderly_leaf (leafPath : TreePath) (rule : LeafRule) (context : Fields) :
    Orderly mayAsk (leaf required leafPath rule context) := by
  unfold leaf
  split
  · refine orderly_bind (orderly_conditions required rule.conditions context) fun context => ?_
    refine orderly_bind (orderly_ofDefect _) fun path => ?_
    refine orderly_bind (orderly_content false _ context) fun text => ?_
    exact orderly_bind (orderly_deliver _) fun _ => orderly_note _
  · exact orderly_throw _

end Render

end TestMatrix
