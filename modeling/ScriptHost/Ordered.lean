/-!
# Ordered entries

Entries under texts, in ascending order of the texts and with one entry for each. Lists in this
order are the maps of the library.
-/

set_option autoImplicit false

namespace ScriptHost.Ordered

variable {α : Type}

def find? (key : String) : List (String × α) → Option α
  | [] => none
  | (k, v) :: rest => if k = key then some v else find? key rest

/-- Puts a value under a key, in place of the one that was there. -/
def insert (key : String) (value : α) : List (String × α) → List (String × α)
  | [] => [(key, value)]
  | (k, v) :: rest =>
    if k = key then (key, value) :: rest
    else if key < k then (key, value) :: (k, v) :: rest
    else (k, v) :: insert key value rest

def erase (key : String) : List (String × α) → List (String × α)
  | [] => []
  | (k, v) :: rest => if k = key then rest else (k, v) :: erase key rest

def keys (entries : List (String × α)) : List String := entries.map Prod.fst

/-- The entries of a list in which later values win. -/
def ofList (entries : List (String × α)) : List (String × α) :=
  entries.foldl (fun acc (k, v) => insert k v acc) []

end ScriptHost.Ordered
