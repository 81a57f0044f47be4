import ConnectionLog.Log.Entry
import ConnectionLog.Window.Source

/-!
The log itself: the applications seen so far and the connections they made.
Connections get identifiers that are never given out twice, not even after the
connection is gone, and are dropped from the low end.
-/
namespace ConnectionLog

structure App where
  id : Int
  path : Datum
deriving DecidableEq

structure Log where
  apps : List App
  /-- The newest comes first. -/
  entries : List Entry
  /-- The largest identifier ever used, zero if none was. -/
  lastId : Nat
deriving DecidableEq

namespace Log

def empty : Log := ⟨[], [], 0⟩

def appOf? (log : Log) (path : String) : Option App :=
  log.apps.find? (·.path = .text path)

def nextAppId (log : Log) : Int :=
  match (log.apps.map (·.id)).max? with
  | some id => id + 1
  | none => 1

def register (log : Log) (path : String) : Int × Log :=
  match log.appOf? path with
  | some app => (app.id, log)
  | none => (log.nextAppId, { log with apps := ⟨log.nextAppId, .text path⟩ :: log.apps })

def pathOf? (log : Log) (e : Entry) : Option Datum :=
  match e.appId with
  | .integer id => (log.apps.find? (·.id = id)).map (·.path)
  | _ => none

def push (log : Log) (entry : Int → Entry) : Except DatabaseFault (Int × Log) :=
  let id : Int := log.lastId + 1
  if maxId < id then .error .full
  else .ok (id, { log with entries := entry id :: log.entries, lastId := log.lastId + 1 })

def append (log : Log) (c : NewConnection) : Except DatabaseFault (Int × Log) :=
  log.push c.entry

def retain (log : Log) (keep : Entry → Bool) : Nat × Log :=
  ((log.entries.filter fun e => !keep e).length,
    { log with entries := log.entries.filter keep })

def prune (log : Log) (before : Int) : Nat × Log :=
  log.retain fun e => before ≤ e.id

/-- Drops everything but the memory of the identifiers used. -/
def clear (log : Log) : Log := { log with apps := [], entries := [] }

def ids (log : Log) : List Int := log.entries.map (·.id)

def span (log : Log) : Span :=
  match log.ids.min?, log.ids.max? with
  | some first, some last => ⟨first, last⟩
  | _, _ => Span.empty

def entry? (log : Log) (id : Int) : Option Entry := log.entries.find? (·.id = id)

/-- The record of a connection. There is none without the connection or without
its application, whatever the columns hold. -/
def fetch (log : Log) (id : Int) : Except DatabaseFault (Option Record) :=
  match log.entry? id with
  | none => .ok none
  | some e =>
    match log.pathOf? e with
    | none => .ok none
    | some path => (e.read path).map some

def source (log : Log) : Source DatabaseFault := ⟨.ok log.span, log.fetch⟩

inductive Write where
  | register (path : String)
  | append (connection : NewConnection)
  | prune (before : Int)
  | clear

inductive Outcome where
  | done
  | id (id : Int)
  | count (count : Nat)

def write (log : Log) : Write → Except DatabaseFault (Outcome × Log)
  | .register path => .ok (.id (log.register path).1, (log.register path).2)
  | .append c => (log.append c).map fun (id, log) => (.id id, log)
  | .prune before => .ok (.count (log.prune before).1, (log.prune before).2)
  | .clear => .ok (.done, log.clear)

/-- The log after a write, which is the same log if the write fails. -/
def after (log : Log) (w : Write) : Log :=
  match log.write w with
  | .ok (_, log) => log
  | .error _ => log

end Log

end ConnectionLog
