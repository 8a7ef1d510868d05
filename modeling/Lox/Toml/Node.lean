import Lox.Datum

/-!
# TOML documents under construction

A document grows by three operations: opening a table, appending a table to a
list of tables, and assigning a value. What may still be done to a table depends
on where it came from, so every table remembers its origin. Values, inline
tables and inline arrays included, are closed from the start.
-/
namespace Lox.Toml

/-- Where a table came from. -/
inductive Origin where
  /-- Only passed through on the way to another one. It may still be opened. -/
  | passed
  /-- Opened by a header. -/
  | opened
  /-- Made by a dotted key in the section with this number. Dotted keys of the
  same section may add to it. -/
  | dotted (number : Nat)
  deriving DecidableEq, Repr

inductive Node where
  /-- A value that nothing can be added to. -/
  | closed (d : Datum)
  | table (origin : Origin) (entries : List (String × Node))
  /-- A list of tables; only the last one can still be added to. -/
  | tables (earlier : List Datum) (last : List (String × Node))

/-- The entries of a table under construction. -/
abbrev Entries := List (String × Node)

namespace Entries

/-- Changes what stands under a name; a new name is put at the end. -/
def alter (key : String) (change : Option Node → Option Node) : Entries → Option Entries
  | [] => (change none).map fun n => [(key, n)]
  | (k, n) :: rest =>
      if k = key then (change (some n)).map fun m => (k, m) :: rest
      else (alter key change rest).map ((k, n) :: ·)

/-- Changes the table at the end of a path. Missing tables on the way are made
and a list of tables leads to its last one. -/
def within (change : Entries → Option Entries) : List String → Entries → Option Entries
  | [], entries => change entries
  | key :: path, entries =>
      entries.alter key fun
        | none => (within change path []).map (Node.table .passed)
        | some (.table origin inner) => (within change path inner).map (Node.table origin)
        | some (.tables earlier last) => (within change path last).map (Node.tables earlier)
        | some (.closed _) => none

/-- Changes the table at the end of a dotted key. Tables on the way must be free
for dotted keys of this section. -/
def dotted (number : Nat) (change : Entries → Option Entries) :
    List String → Entries → Option Entries
  | [], entries => change entries
  | key :: path, entries =>
      entries.alter key fun
        | none => (dotted number change path []).map (Node.table (.dotted number))
        | some (.table .passed inner) =>
            (dotted number change path inner).map (Node.table (.dotted number))
        | some (.table (.dotted n) inner) =>
            if n = number then
              (dotted number change path inner).map (Node.table (.dotted number))
            else none
        | some _ => none

/-- Opens a table. It may have been passed through, but not have been made. -/
def openTable (path : List String) (key : String) (entries : Entries) : Option Entries :=
  entries.within
    (fun inner => inner.alter key fun
      | none => some (.table .opened [])
      | some (.table .passed es) => some (.table .opened es)
      | some _ => none)
    path

/-- Assigns a value to a dotted key below a header. The last name must be new. -/
def assign (number : Nat) (header path : List String) (key : String) (d : Datum)
    (entries : Entries) : Option Entries :=
  entries.within
    (dotted number
      (fun inner => inner.alter key fun
        | none => some (.closed d)
        | some _ => none)
      path)
    header

end Entries

mutual

/-- The datum that a node has become. -/
def Node.datum : Node → Datum
  | .closed d => d
  | .table _ entries => .table (Node.fields entries)
  | .tables earlier last => .list (earlier ++ [.table (Node.fields last)])

/-- The data of some entries. -/
def Node.fields : List (String × Node) → Fields
  | [] => []
  | (k, n) :: rest => (k, n.datum) :: Node.fields rest

end

namespace Entries

/-- Appends a table to a list of tables, which is made if it is not there. -/
def appendTable (path : List String) (key : String) (entries : Entries) : Option Entries :=
  entries.within
    (fun inner => inner.alter key fun
      | none => some (.tables [] [])
      | some (.tables earlier last) => some (.tables (earlier ++ [.table (Node.fields last)]) [])
      | some _ => none)
    path

end Entries

end Lox.Toml
