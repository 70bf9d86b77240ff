/-!
# Tables

A table maps names to values and keeps them in the order in which the names were first entered.
Entering a name again changes its value and not its place.
-/

namespace RaisingEffects

/-- Names with values, in the order of first entry. -/
abbrev Table (α : Type) := List (String × α)

namespace Table

variable {α : Type}

def get? (t : Table α) (name : String) : Option α :=
  match t with
  | [] => none
  | (n, a) :: rest => if n = name then some a else get? rest name

def set (t : Table α) (name : String) (value : α) : Table α :=
  match t with
  | [] => [(name, value)]
  | (n, a) :: rest => if n = name then (n, value) :: rest else (n, a) :: set rest name value

def ofEntries (entries : List (String × α)) : Table α :=
  entries.foldl (fun t e => set t e.1 e.2) []

end Table

end RaisingEffects
