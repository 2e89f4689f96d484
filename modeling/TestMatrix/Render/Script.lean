import TestMatrix.Event
import TestMatrix.Run.Fault

/-! # Scripts

Rendering asks for templates and hands over artifacts. What it does in which order is a script; a
host plays it, be it in memory, on a file system or in a dry run. -/

namespace TestMatrix

structure Artifact where
  path : String
  content : String

/-- What a host has accepted: how many artifacts, and how many bytes it said to have written. -/
structure Tally where
  artifacts : Nat
  bytes : Nat

namespace Tally

def zero : Tally := ⟨0, 0⟩

/-- The largest number of bytes that is counted. -/
def limit : Nat := UInt64.size - 1

/-- One more artifact, of this number of bytes. -/
def add (tally : Tally) (bytes : Nat) : Tally :=
  ⟨tally.artifacts + 1, min (tally.bytes + bytes) limit⟩

end Tally

inductive Script (α : Type) where
  | done (value : α)
  /-- Ask for the template of a reference. -/
  | fetch (reference : String) (next : Except RunFault String → Script α)
  /-- Hand over an artifact. -/
  | deliver (artifact : Artifact) (next : Except RunFault Unit → Script α)
  /-- Ask what has been accepted so far. -/
  | tally (next : Tally → Script α)
  | note (event : Event) (next : Script α)

namespace Script

variable {α β : Type}

def bind : Script α → (α → Script β) → Script β
  | .done value, f => f value
  | .fetch reference next, f => .fetch reference fun answer => (next answer).bind f
  | .deliver artifact next, f => .deliver artifact fun answer => (next answer).bind f
  | .tally next, f => .tally fun tally => (next tally).bind f
  | .note event next, f => .note event (next.bind f)

instance : Monad Script where
  pure := .done
  bind := bind

end Script

/-- A script that may stop with a fault. -/
abbrev Rendering := ExceptT RunFault Script

namespace Rendering

def fetch (reference : String) : Rendering String := ExceptT.mk (.fetch reference .done)

def deliver (artifact : Artifact) : Rendering Unit := ExceptT.mk (.deliver artifact .done)

def tally : Rendering Tally := ExceptT.mk (.tally fun tally => .done (.ok tally))

def note (event : Event) : Rendering Unit := ExceptT.mk (.note event (.done (.ok ())))

/-- Goes on with a value, or stops with the defect. -/
def ofDefect {α : Type} : Except SchemaDefect α → Rendering α
  | .ok value => pure value
  | .error defect => throw (.schema defect)

end Rendering

/-- How templates are read, artifacts taken and events noted. -/
structure Host (m : Type → Type) where
  fetch : String → m (Except RunFault String)
  /-- Gives the number of bytes written. -/
  deliver : Artifact → m (Except RunFault Nat)
  note : Event → m Unit

/-- Plays a script, keeping the tally of what was accepted. -/
def Script.play {m : Type → Type} [Monad m] {α : Type} (host : Host m) :
    Script α → Tally → m (Tally × α)
  | .done value, accepted => pure (accepted, value)
  | .fetch reference next, accepted => do
    let answer ← host.fetch reference
    play host (next answer) accepted
  | .deliver artifact next, accepted => do
    match ← host.deliver artifact with
    | .ok bytes => play host (next (.ok ())) (accepted.add bytes)
    | .error fault => play host (next (.error fault)) accepted
  | .tally next, accepted => play host (next accepted) accepted
  | .note event next, accepted => do
    host.note event
    play host next accepted

end TestMatrix
