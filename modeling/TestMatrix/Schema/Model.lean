import TestMatrix.Json.Printer

/-! # What a schema says

Assertions check the nodes of a specification; leaves tell what is generated from the patterns found
at a path. -/

namespace TestMatrix

/-- The keys under which a schema states assertions. -/
inductive AssertionKind where
  | exactFields
  | exactKeys
  | eachValue
deriving DecidableEq

def AssertionKind.name : AssertionKind → String
  | .exactFields => "matches"
  | .exactKeys => "has_keys"
  | .eachValue => "each_value"

def AssertionKind.ofName? : String → Option AssertionKind
  | "matches" => some .exactFields
  | "has_keys" => some .exactKeys
  | "each_value" => some .eachValue
  | _ => none

/-- The check of one field or item. -/
inductive Predicate where
  | nonEmptyString
  | nonEmptyList
  | nonEmptyDict
  | integer
  | existingFile
  /-- The value, or every item of a list, is one of these. -/
  | oneOf (allowed : List Json)
  /-- The value is a mapping with exactly these fields, each checked in turn. -/
  | fields (rules : List (String × Predicate))

def Predicate.primitive? : String → Option Predicate
  | "non_empty_string" => some .nonEmptyString
  | "non_empty_list" => some .nonEmptyList
  | "non_empty_dict" => some .nonEmptyDict
  | "integer" => some .integer
  | "existing_file" => some .existingFile
  | _ => none

inductive Assertion where
  | exactFields (rules : List (String × Predicate))
  | exactKeys (keys : List String)
  | eachValue (predicate : Predicate)

/-- An assertion with the expectation it was written as. -/
structure Rule where
  assertion : Assertion
  expectation : Json

/-- Content of an artifact: text, or the reference of a template together with named parts that are
rendered first. The parts are in the order of their names. -/
inductive TemplateSource where
  | inline (text : String)
  | external (main : String) (parts : List (String × String))

inductive WhenAction where
  /-- Deliver one more artifact. -/
  | generate (path : String) (template : TemplateSource)
  /-- Store a rendered text in the context. -/
  | setExtension (key : String) (template : String)

/-- The actions run when both templates of some pair render to the same text. -/
structure WhenRule where
  pairs : List (String × String)
  actions : List WhenAction

inductive LeafAction where
  | generate
  | suppress
deriving DecidableEq

/-- What is done with the selections of the patterns at a path. -/
structure LeafRule where
  path : Option String
  template : Option TemplateSource
  action : LeafAction
  conditions : List WhenRule
  defaults : Fields

def LeafRule.empty : LeafRule := ⟨none, none, .generate, [], []⟩

/-- Entries in the order of their names; equal names keep their order. -/
def insertByName {α : Type} (entry : String × α) : List (String × α) → List (String × α)
  | [] => [entry]
  | other :: rest =>
    if entry.1 ≤ other.1 then entry :: other :: rest else other :: insertByName entry rest

def sortByName {α : Type} : List (String × α) → List (String × α)
  | [] => []
  | entry :: rest => insertByName entry (sortByName rest)

end TestMatrix
