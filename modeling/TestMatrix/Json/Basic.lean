import TestMatrix.Number.Basic

/-! # Documents

A document is a tree whose mappings keep their fields in document order. Two notions of equality
live side by side: `=` sees the order of fields, `Json.same` does not. -/

namespace TestMatrix

inductive Json where
  | null
  | bool (value : Bool)
  | num (value : Number)
  | str (text : String)
  | arr (items : List Json)
  | obj (fields : List (String × Json))

/-- The fields of a mapping in document order. -/
abbrev Fields := List (String × Json)

namespace Fields

def keys (fields : Fields) : List String := fields.map Prod.fst

/-- Stores a value: a present key keeps its position, a new one goes to the end. -/
def set : Fields → String → Json → Fields
  | [], key, value => [(key, value)]
  | (k, v) :: rest, key, value =>
    if k = key then (key, value) :: rest else (k, v) :: set rest key value

/-- The mapping written as this list of entries: of a repeated key, the first position and the last
value. -/
def ofEntries (entries : List (String × Json)) : Fields :=
  entries.foldl (fun fields entry => set fields entry.1 entry.2) []

end Fields

namespace Json

/-- The text that stands for every value of a field's domain. -/
def wildcard : String := "*"

def str? : Json → Option String
  | .str text => some text
  | _ => none

def arr? : Json → Option (List Json)
  | .arr items => some items
  | _ => none

def obj? : Json → Option Fields
  | .obj fields => some fields
  | _ => none

def isWildcard : Json → Bool
  | .str text => text == wildcard
  | _ => false

/-- Whether the value has children: a list or a mapping. -/
def isContainer : Json → Bool
  | .arr _ | .obj _ => true
  | _ => false

def typeName : Json → String
  | .null => "null"
  | .bool _ => "bool"
  | .num _ => "number"
  | .str _ => "string"
  | .arr _ => "list"
  | .obj _ => "dict"

mutual
/-- Equality of values: the order of fields does not matter at any depth. -/
def same : Json → Json → Bool
  | .null, .null => true
  | .bool a, .bool b => a == b
  | .num a, .num b => a.same b
  | .str a, .str b => a == b
  | .arr xs, .arr ys => sameItems xs ys
  | .obj fs, .obj gs => fs.length == gs.length && sameFields fs gs
  | _, _ => false
def sameItems : List Json → List Json → Bool
  | [], [] => true
  | x :: xs, y :: ys => x.same y && sameItems xs ys
  | _, _ => false
/-- Every field of the first list has an equal value in the second. -/
def sameFields : List (String × Json) → List (String × Json) → Bool
  | [], _ => true
  | (key, x) :: rest, gs =>
    (match gs.lookup key with
     | some y => x.same y
     | none => false) && sameFields rest gs
end

/-- Membership up to the order of fields. -/
def isAmong (value : Json) (allowed : List Json) : Bool := allowed.any fun other => value.same other

end Json

end TestMatrix
