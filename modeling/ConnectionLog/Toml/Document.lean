import ConnectionLog.Toml.Value

/-!
Documents as lists of statements, and the table they build. A key is given a
value once, a table is opened once, and what is complete is not extended.
-/
namespace ConnectionLog.Toml

inductive Statement where
  | entry (path : List String) (key : String) (value : Value)
  | header (path : List String) (key : String)
  | arrayHeader (path : List String) (key : String)

namespace Entries

/-- Follows a path of keys and changes the table at its end. Tables that are not
there yet are made on the way. A path leads through the last of several tables
under one key, but not into a complete table; a dotted key may not lead into a
table with a header either. -/
def alter (dotted : Bool) (change : Form → Entries → Option Entries) :
    List String → Form → Entries → Option Entries
  | [], form, entries => change form entries
  | key :: path, _, entries =>
    match entries.lookup key with
    | none =>
      let form := if dotted then Form.dotted else Form.implied
      (alter dotted change path form []).map fun inner =>
        entries ++ [(key, .table form inner)]
    | some (.table form inner) =>
      if form = .closed ∨ (dotted ∧ form = .header) then none
      else
        (alter dotted change path form inner).map fun inner =>
          entries.replace key (.table form inner)
    | some (.tables items) =>
      match items.getLast? with
      | none => none
      | some last =>
        (alter dotted change path .header last).map fun last =>
          entries.replace key (.tables (items.dropLast ++ [last]))
    | some _ => none

/-- Adds an entry under a dotted key. The path must end in this table or in one
that only dotted keys have made. -/
def addDotted? (entries : Entries) (path : List String) (key : String) (value : Value) :
    Option Entries :=
  entries.alter true
    (fun form inner => if path ≠ [] ∧ form ≠ .dotted then none else inner.add? key value)
    path .header

/-- Opens a table by its header, which also completes one that was only passed
through by other headers. -/
def openTable? (key : String) (entries : Entries) : Option Entries :=
  match entries.lookup key with
  | none => some (entries ++ [(key, .table .header [])])
  | some (.table .implied inner) => some (entries.replace key (.table .header inner))
  | some _ => none

def openNext? (key : String) (entries : Entries) : Option Entries :=
  match entries.lookup key with
  | none => some (entries ++ [(key, .tables [[]])])
  | some (.tables items) => some (entries.replace key (.tables (items ++ [[]])))
  | some _ => none

end Entries

structure Document where
  entries : Entries
  current : List String

namespace Document

def empty : Document := ⟨[], []⟩

def add? (d : Document) : Statement → Option Document
  | .entry path key value =>
    (d.entries.alter false (fun _ inner => inner.addDotted? path key value) d.current .header).map
      fun entries => { d with entries }
  | .header path key =>
    (d.entries.alter false (fun _ inner => inner.openTable? key) path .header).map
      fun entries => ⟨entries, path ++ [key]⟩
  | .arrayHeader path key =>
    (d.entries.alter false (fun _ inner => inner.openNext? key) path .header).map
      fun entries => ⟨entries, path ++ [key]⟩

def ofStatements? (statements : List Statement) : Option Document :=
  statements.foldlM add? empty

end Document

end ConnectionLog.Toml
