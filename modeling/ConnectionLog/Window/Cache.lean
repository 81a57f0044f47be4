import ConnectionLog.Record.Connection

/-!
A cache of the one row that was read last. Its entry is known by the row and by
the identifier the row stood for. A row without a record is cached like any
other.
-/
namespace ConnectionLog

/-- A row of the table; a row without a record is `none`. -/
abbrev Row := Option Connection

structure CachedRow where
  row : Nat
  id : Int
  value : Row
deriving DecidableEq

structure RowCache where
  entry : Option CachedRow
deriving DecidableEq

namespace RowCache

def empty : RowCache := ⟨none⟩

def isEmpty (c : RowCache) : Bool := c.entry.isNone

def find? (c : RowCache) (row : Nat) (id : Int) : Option Row :=
  match c.entry with
  | some e => if e.row = row ∧ e.id = id then some e.value else none
  | none => none

def holds (c : RowCache) (row : Nat) (id : Int) : Bool := (c.find? row id).isSome

def current (c : RowCache) : Row :=
  match c.entry with
  | some e => e.value
  | none => none

def store (_ : RowCache) (row : Nat) (id : Int) (value : Row) : RowCache :=
  ⟨some ⟨row, id, value⟩⟩

end RowCache

end ConnectionLog
