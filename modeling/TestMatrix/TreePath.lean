import TestMatrix.Json.Printer
import TestMatrix.Text.Parts

/-! # Tree paths

A path addresses a node of a document. Rules are written for generalized paths, in which list
positions and numeric keys are folded into the wildcard. -/

namespace TestMatrix

/-- One step of a path. The key `*` is no key: it always means the wildcard. -/
inductive Segment where
  | key (name : String) (ne_wildcard : name ≠ Json.wildcard)
  | index (position : Nat)
  | wildcard
deriving DecidableEq

namespace Segment

def ofKey (name : String) : Segment :=
  if h : name = Json.wildcard then .wildcard else .key name h

def text : Segment → String
  | .key name _ => name
  | .index position => toString position
  | .wildcard => Json.wildcard

/-- A key of ASCII digits only. -/
def isNumeric (name : String) : Bool :=
  !name.isEmpty && name.toList.all fun c => decide ('0' ≤ c ∧ c ≤ '9')

def generalize : Segment → Segment
  | .index _ | .wildcard => .wildcard
  | .key name h => if isNumeric name then .wildcard else .key name h

/-- Keys by code points, then positions, then the wildcard. -/
def order : Segment → Segment → Ordering
  | .key a _, .key b _ => compare a b
  | .key .., _ => .lt
  | .index _, .key .. => .gt
  | .index a, .index b => compare a b
  | .index _, .wildcard => .lt
  | .wildcard, .wildcard => .eq
  | .wildcard, _ => .gt

instance : Ord Segment := ⟨order⟩

end Segment

/-- The segments from the root down. The order of paths is lexicographic, a path before the paths
below it. -/
abbrev TreePath := List Segment

namespace TreePath

def root : TreePath := []

/-- Reads a path written with slashes; empty parts count for nothing. -/
def parse (text : String) : TreePath := (slashParts text).map Segment.ofKey

def text (path : TreePath) : String :=
  if path.isEmpty then "/"
  else String.ofList (path.flatMap fun segment => '/' :: segment.text.toList)

def child (path : TreePath) (segment : Segment) : TreePath := path ++ [segment]

def childKey (path : TreePath) (name : String) : TreePath := path.child (.ofKey name)

def generalize (path : TreePath) : TreePath := path.map Segment.generalize

/-- The paths on the way from the root to a path, both included. -/
def prefixes : TreePath → List TreePath
  | [] => [[]]
  | segment :: rest => [] :: (prefixes rest).map fun path => segment :: path

end TreePath

/-- The children of a list or mapping in document order, each with the step that leads to it. -/
def Json.children : Json → List (Segment × Json)
  | .obj fields => fields.map fun (name, value) => (.ofKey name, value)
  | .arr items => items.zipIdx.map fun (item, position) => (.index position, item)
  | _ => []

end TestMatrix
