import ScriptHost.Toml.Basic

/-!
# Assembling a TOML document

Headers open tables and key lines fill the open one. A table may be opened by a header once, and
only if no dotted key or value made it; dotted keys extend only tables that dotted keys made.
-/

set_option autoImplicit false

namespace ScriptHost.Toml

/-- A document while it is read: the closed part, and the open table with its path. -/
structure Document where
  root : Entries := []
  opened : Entries := []
  path : List String := []
  /-- Whether the open table is one more item of an array of tables. -/
  inArray : Bool := false

/-- Changes the table at a path below `entries`, making missing ones with the given origin. In an
array of tables the path goes on in its last item. -/
def descend (dotted : Bool) (change : Origin → Entries → Option Entries) :
    List String → Origin → Entries → Option Entries
  | [], origin, entries => change origin entries
  | key :: rest, _, entries =>
    match entries.get? key with
    | none => do
      let origin := if dotted then .dotted else .implied
      let below ← descend dotted change rest origin []
      some (entries.put key (.table origin below))
    | some (.table origin below) =>
      if origin = .inline || (dotted && origin = .header) then none
      else do
        let below ← descend dotted change rest origin below
        some (entries.put key (.table origin below))
    | some (.tables items) =>
      match items.reverse with
      | [] => none
      | last :: before => do
        let last ← descend dotted change rest .header last
        some (entries.put key (.tables (before.reverse ++ [last])))
    | some _ => none

/-- Adds a key line to a table. A plain key needs a table that no dotted key made, and a dotted
key needs one that dotted keys made. -/
def addLine (keys : List String) (value : Toml) (origin : Origin) (entries : Entries) :
    Option Entries :=
  match keys.reverse with
  | [] => none
  | key :: above =>
    let put (origin : Origin) (entries : Entries) : Option Entries :=
      if (origin == .dotted) == above.isEmpty then none
      else
        match entries.get? key with
        | some _ => none
        | none => some (entries.put key value)
    descend true put above.reverse origin entries

/-- Splits off the last key of a path. -/
def splitLast : List String → Option (List String × String)
  | [] => none
  | [key] => some ([], key)
  | key :: rest => (splitLast rest).map fun (above, last) => (key :: above, last)

namespace Document

def close (doc : Document) : Option Entries :=
  match splitLast doc.path with
  | none => some doc.opened
  | some (above, key) =>
    descend false (fun _ entries =>
      if doc.inArray then
        match entries.get? key with
        | some (.tables items) => some (entries.put key (.tables (items ++ [doc.opened])))
        | _ => none
      else some (entries.put key (.table .header doc.opened))) above .header doc.root

/-- The entries that a header finds at its path: none there yet, or those of an implied table. -/
def find? (key : String) : List String → Entries → Option Entries
  | [], entries =>
    match entries.get? key with
    | none => some []
    | some (.table .implied below) => some below
    | some _ => none
  | next :: rest, entries =>
    match entries.get? next with
    | none => some []
    | some (.table .inline _) => none
    | some (.table _ below) => find? key rest below
    | some (.tables items) => items.getLast?.bind (find? key rest)
    | some _ => none

def openTable (path : List String) (doc : Document) : Option Document := do
  let root ← doc.close
  let (above, key) ← splitLast path
  let found ← find? key above root
  some ⟨root, found, path, false⟩

def openItem (path : List String) (doc : Document) : Option Document := do
  let root ← doc.close
  let (above, key) ← splitLast path
  let root ← descend false (fun _ entries =>
    match entries.get? key with
    | none => some (entries.put key (.tables []))
    | some (.tables _) => some entries
    | some _ => none) above .header root
  some ⟨root, [], path, true⟩

def addEntry (keys : List String) (value : Toml) (doc : Document) : Option Document := do
  let entries ← addLine keys value .header doc.opened
  some { doc with opened := entries }

end Document

end ScriptHost.Toml
