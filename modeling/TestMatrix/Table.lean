import TestMatrix.TreePath

/-! # Tables by path

A table lists its entries in the order of their paths, each path once. -/

namespace TestMatrix

structure Table (α : Type) where
  entries : List (TreePath × α)

namespace Table

variable {α : Type}

def empty : Table α := ⟨[]⟩

def get? (table : Table α) (path : TreePath) : Option α := table.entries.lookup path

def contains (table : Table α) (path : TreePath) : Bool := (table.get? path).isSome

def size (table : Table α) : Nat := table.entries.length

def insertEntry (path : TreePath) (value : α) : List (TreePath × α) → List (TreePath × α)
  | [] => [(path, value)]
  | entry :: rest =>
    match compare path entry.1 with
    | .lt => (path, value) :: entry :: rest
    | .eq => (path, value) :: rest
    | .gt => entry :: insertEntry path value rest

/-- Stores a value at its place; the value stored last at a path stays. -/
def insert (table : Table α) (path : TreePath) (value : α) : Table α :=
  ⟨insertEntry path value table.entries⟩

end Table

/-- The paths of a list in order, each once. -/
def sortedPaths (paths : List TreePath) : List TreePath :=
  (paths.foldl (fun table path => table.insert path ()) (Table.empty : Table Unit)).entries.map
    Prod.fst

end TestMatrix
