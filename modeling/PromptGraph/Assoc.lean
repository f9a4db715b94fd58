/-
Tables by name: association lists in ascending order of their keys, each key once. Two tables with
the same entries are the same list.
-/

namespace PromptGraph

abbrev Assoc (α : Type) := List (String × α)

namespace Assoc

variable {α β : Type}

def get? : Assoc α → String → Option α
  | [], _ => none
  | (k, v) :: rest, name => if k = name then some v else get? rest name

def contains (t : Assoc α) (name : String) : Bool := (get? t name).isSome

/-- Adds or replaces an entry. -/
def insert : Assoc α → String → α → Assoc α
  | [], name, v => [(name, v)]
  | (k, w) :: rest, name, v =>
    if name < k then (name, v) :: (k, w) :: rest
    else if k = name then (k, v) :: rest
    else (k, w) :: insert rest name v

def erase (t : Assoc α) (name : String) : Assoc α := t.filter (·.1 ≠ name)

def keys (t : Assoc α) : List String := t.map Prod.fst

/-- A table from entries in any order; of two with one key the later counts. -/
def ofList (entries : List (String × α)) : Assoc α :=
  entries.foldl (fun t (k, v) => insert t k v) []

/-- Every entry of `t` put into `base`. -/
def merge (base t : Assoc α) : Assoc α := t.foldl (fun acc (k, v) => insert acc k v) base

def mapValues (f : α → β) (t : Assoc α) : Assoc β := t.map fun (k, v) => (k, f v)

end Assoc

end PromptGraph
