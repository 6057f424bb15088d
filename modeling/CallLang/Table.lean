/-
  CallLang/Table.lean
  ===================
  **Tables.**

  A table maps names to entries and keeps the order in which the names came in.
  Writing an entry again keeps its place.
-/

namespace CallLang

/-- Names with their entries, the oldest first. -/
abbrev Table (α : Type) := List (String × α)

namespace Table

variable {α : Type}

def get? (table : Table α) (name : String) : Option α :=
  table.lookup name

/-- Writes an entry, in the place of the earlier one if there is one. -/
def set : Table α → String → α → Table α
  | [], name, entry => [(name, entry)]
  | (other, old) :: rest, name, entry =>
    if other = name then (name, entry) :: rest else (other, old) :: set rest name entry

def erase (table : Table α) (name : String) : Table α :=
  table.filter fun (other, _) => other ≠ name

/-- The names, the oldest first. -/
def names (table : Table α) : List String :=
  table.map Prod.fst

/-- The name that came in last. -/
def newest? (table : Table α) : Option String :=
  table.getLast?.map Prod.fst

def ofPairs (pairs : List (String × α)) : Table α :=
  pairs.foldl (fun table (name, entry) => table.set name entry) []

end Table

end CallLang
