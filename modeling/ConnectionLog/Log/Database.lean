import ConnectionLog.Log.Repair

/-!
A log in a database whose tables may be missing. The table of connections can be
set aside and put back; a database that is opened for writing without a table gets
a new one that remembers nothing.
-/
namespace ConnectionLog

structure Database where
  log : Log
  /-- Whether the table of applications is there. Without it `log` has none. -/
  hasApps : Bool
  /-- Whether the table of connections is there. Without it `log` has none. -/
  hasEntries : Bool
  /-- The entries and the memory of identifiers of the table set aside. -/
  aside : Option (List Entry × Nat)
deriving DecidableEq

inductive Call where
  | write (w : Log.Write)
  | span
  | fetch (id : Int)

inductive Answer where
  | outcome (outcome : Log.Outcome)
  | span (span : Span)
  | record (record : Option Record)

/-- What is done to a database behind the back of its log. -/
inductive Intrusion where
  | repair (edit : Repair)
  | setAside
  | putBack

def Call.table : Call → TableName
  | .write (.register _) => .apps
  | _ => .connections

def Repair.table : Repair → TableName
  | .insertApp .. | .deleteApp _ => .apps
  | _ => .connections

namespace Database

def empty : Database := ⟨Log.empty, true, true, none⟩

def bare : Database := ⟨Log.empty, false, false, none⟩

def ofLog (log : Log) : Database := ⟨log, true, true, none⟩

def has (db : Database) : TableName → Bool
  | .apps => db.hasApps
  | .connections => db.hasEntries

def completed (db : Database) : Database := { db with hasApps := true, hasEntries := true }

def isComplete (db : Database) : Bool := db.hasApps && db.hasEntries

def write (db : Database) (readOnly : Bool) (w : Log.Write) :
    Except DatabaseFault (Log.Outcome × Database) :=
  if readOnly then .error .readOnly
  else (db.log.write w).map fun (outcome, log) => (outcome, { db with log })

/-- A missing table is noticed before anything else. -/
def call (db : Database) (readOnly : Bool) (c : Call) : Except DatabaseFault (Answer × Database) :=
  if !db.has c.table then .error (.noSuchTable c.table)
  else
    match c with
    | .write w => (db.write readOnly w).map fun (outcome, db) => (.outcome outcome, db)
    | .span => .ok (.span db.log.span, db)
    | .fetch id => (db.log.fetch id).map fun record => (.record record, db)

def setAside (db : Database) : Except DatabaseFault Database :=
  if !db.hasEntries then .error (.noSuchTable .connections)
  else if db.aside.isSome then .error (.tableExists .connections)
  else
    .ok ⟨⟨db.log.apps, [], 0⟩, db.hasApps, false, some (db.log.entries, db.log.lastId)⟩

def putBack (db : Database) : Except DatabaseFault Database :=
  match db.aside with
  | none => .error (.noSuchTable .connections)
  | some (entries, lastId) =>
    if db.hasEntries then .error (.tableExists .connections)
    else .ok ⟨⟨db.log.apps, entries, lastId⟩, db.hasApps, true, none⟩

def intrude (db : Database) : Intrusion → Except DatabaseFault (Nat × Database)
  | .repair edit =>
    if !db.has edit.table then .error (.noSuchTable edit.table)
    else (db.log.repair edit).map fun (count, log) => (count, { db with log })
  | .setAside => db.setAside.map (0, ·)
  | .putBack => db.putBack.map (0, ·)

def span (db : Database) : Except DatabaseFault Span :=
  if db.hasEntries then .ok db.log.span else .error (.noSuchTable .connections)

def fetch (db : Database) (id : Int) : Except DatabaseFault (Option Record) :=
  if db.hasEntries then db.log.fetch id else .error (.noSuchTable .connections)

def source (db : Database) : Source DatabaseFault := ⟨db.span, db.fetch⟩

end Database

end ConnectionLog
