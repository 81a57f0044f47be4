import ConnectionLog.Log.Basic

/-!
Edits of a log that bypass its writer: rows of any content, chosen identifiers,
single rows and applications taken out. The memory of identifiers is kept up by
them too.
-/
namespace ConnectionLog

/-- The columns of a row to be put in; the others get their default. -/
abbrev Columns := List (Field × Datum)

namespace Columns

def default : Field → Datum
  | .appId => .integer 1
  | .near6 | .far6 => .null
  | _ => .integer 0

def value (columns : Columns) (f : Field) : Datum := (columns.lookup f).getD (default f)

def entry (columns : Columns) (id : Int) : Entry where
  id := id
  appId := columns.value .appId
  time := columns.value .time
  pid := columns.value .pid
  reason := columns.value .reason
  blocked := columns.value .blocked
  inherited := columns.value .inherited
  inbound := columns.value .inbound
  protocol := columns.value .protocol
  nearPort := columns.value .nearPort
  farPort := columns.value .farPort
  near4 := columns.value .near4
  far4 := columns.value .far4
  near6 := columns.value .near6
  far6 := columns.value .far6

def missing? (columns : Columns) : Option Field :=
  Field.all.find? fun f => !f.isOptional && columns.value f = .null

def checked (columns : Columns) : Except DatabaseFault Unit :=
  match columns.missing? with
  | some field => .error (.missingValue .connections field.name)
  | none => .ok ()

end Columns

/-- Paths are texts: a number put in place of one becomes its numeral. -/
def Datum.asPath : Datum → Datum
  | .integer value => .text (Numeral.intText value)
  | .real => .text "1.5"
  | other => other

inductive Repair where
  | insertEntry (id : Option Int) (columns : Columns)
  | insertApp (id : Int) (path : Datum)
  | deleteEntry (id : Int)
  | deleteApp (id : Int)
  | deleteBelow (before : Int)
  | deleteEntries

namespace Log

def insertAt (log : Log) (id : Int) (entry : Int → Entry) : Except DatabaseFault Log :=
  match log.entry? id with
  | some _ => .error (.duplicate .connections Field.id.name)
  | none =>
    .ok { log with entries := entry id :: log.entries, lastId := max log.lastId id.toNat }

/-- Adds an entry under its identifier, or under the next one. Whether there is a next
one is asked before anything else. -/
def insertEntry (log : Log) (id : Option Int) (columns : Columns) : Except DatabaseFault Log :=
  match id with
  | some id => do
    columns.checked
    log.insertAt id columns.entry
  | none => do
    let (_, next) ← log.push columns.entry
    columns.checked
    return next

def insertApp (log : Log) (id : Int) (path : Datum) : Except DatabaseFault Log :=
  if path = .null then .error (.missingValue .apps Field.path.name)
  else if log.apps.any (·.id = id) then .error (.duplicate .apps Field.appId.name)
  else if log.apps.any (·.path = path) then .error (.duplicate .apps Field.path.name)
  else .ok { log with apps := ⟨id, path⟩ :: log.apps }

def deleteApp (log : Log) (id : Int) : Nat × Log :=
  ((log.apps.filter (·.id = id)).length, { log with apps := log.apps.filter (·.id ≠ id) })

def repair (log : Log) : Repair → Except DatabaseFault (Nat × Log)
  | .insertEntry id columns => (log.insertEntry id columns).map (1, ·)
  | .insertApp id path => (log.insertApp id path.asPath).map (1, ·)
  | .deleteEntry id => .ok (log.retain (·.id ≠ id))
  | .deleteApp id => .ok (log.deleteApp id)
  | .deleteBelow before => .ok (log.prune before)
  | .deleteEntries => .ok (log.retain fun _ => false)

end Log

end ConnectionLog
