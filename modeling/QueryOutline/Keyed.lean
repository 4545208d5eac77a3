/-!
# Lists kept in key order

Fields of an object and entries of a reference map are kept as lists of pairs in strictly increasing order of the key;
sets of names as strictly increasing lists.

* **Writing** (`Keyed.put`): a key that is present gets the new value, a new key goes to its place.
* **Looking up** is `List.lookup`.
* **Sets of names** (`Names.ofList`): each name once, in increasing order.
-/

namespace QueryOutline

namespace Keyed

variable {α : Type}

/-- Writes a value under a key of a list in key order. -/
def put (key : String) (value : α) : List (String × α) → List (String × α)
  | [] => [(key, value)]
  | (k, v) :: rest =>
    if key < k then (key, value) :: (k, v) :: rest
    else if key = k then (key, value) :: rest
    else (k, v) :: put key value rest

/-- The list in key order of the given pairs; of two pairs with one key the later wins. -/
def ofList (pairs : List (String × α)) : List (String × α) :=
  pairs.foldl (fun entries pair => put pair.1 pair.2 entries) []

end Keyed

namespace Names

/-- Adds a name to an increasing list of names. -/
def insert (name : String) : List String → List String
  | [] => [name]
  | n :: rest =>
    if name < n then name :: n :: rest
    else if name = n then n :: rest
    else n :: insert name rest

/-- The given names, each once, in increasing order. -/
def ofList (names : List String) : List String :=
  names.foldl (fun sorted name => insert name sorted) []

/-- The given names, each once, in the order of their first occurrence. -/
def dedup (names : List String) : List String :=
  names.foldl (fun seen name => if name ∈ seen then seen else seen ++ [name]) []

end Names

end QueryOutline
