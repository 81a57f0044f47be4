import ConnectionLog.Files.Opening

/-!
What calls of an open log come to that holds a complete database: those of the log in
it. Only a write changes what is held.
-/
namespace ConnectionLog

namespace Database

variable (db : Database)

theorem has_of_isComplete (table : TableName) (h : db.isComplete = true) :
    db.has table = true := by
  rw [isComplete, Bool.and_eq_true] at h
  cases table with
  | apps => exact h.1
  | connections => exact h.2

theorem call_span (readOnly : Bool) (h : db.isComplete = true) :
    db.call readOnly .span = .ok (.span db.log.span, db) := by
  simp only [call, has_of_isComplete db _ h, Bool.not_true, Bool.false_eq_true, if_false]

theorem call_fetch (readOnly : Bool) (id : Int) (h : db.isComplete = true) :
    db.call readOnly (.fetch id) = (db.log.fetch id).map fun record => (.record record, db) := by
  simp only [call, has_of_isComplete db _ h, Bool.not_true, Bool.false_eq_true, if_false]

theorem call_write_readOnly (w : Log.Write) (h : db.isComplete = true) :
    db.call true (.write w) = .error .readOnly := by
  simp only [call, has_of_isComplete db _ h, Bool.not_true, Bool.false_eq_true, if_false, write,
    if_true]
  rfl

theorem call_write (w : Log.Write) (h : db.isComplete = true) :
    db.call false (.write w) =
      (db.log.write w).map fun (outcome, log) => (.outcome outcome, { db with log }) := by
  simp only [call, has_of_isComplete db _ h, Bool.not_true, Bool.false_eq_true, if_false, write]
  cases db.log.write w <;> rfl

end Database

namespace OpenLog

variable (log : OpenLog) (db : Database)

/-- An open log answers as its database does. -/
theorem call_of_held (asked : Call) (hheld : log.held = .ok db) :
    log.call asked =
      (db.call log.readOnly asked).map fun (answer, db) =>
        (answer, { log with held := .ok db }) := by
  rw [call, hheld]
  simp only [bind, Except.bind]
  cases db.call log.readOnly asked <;> rfl

theorem with_held (hheld : log.held = .ok db) : { log with held := .ok db } = log := by
  rw [← hheld]

theorem call_span (hheld : log.held = .ok db) (h : db.isComplete = true) :
    log.call .span = .ok (.span db.log.span, log) := by
  rw [call_of_held log db .span hheld, Database.call_span db log.readOnly h]
  simp only [Except.map, with_held log db hheld]

theorem call_fetch (id : Int) (record : Option Record) (hheld : log.held = .ok db)
    (h : db.isComplete = true) (hfetch : db.log.fetch id = .ok record) :
    log.call (.fetch id) = .ok (.record record, log) := by
  rw [call_of_held log db (.fetch id) hheld, Database.call_fetch db log.readOnly id h, hfetch]
  simp only [Except.map, with_held log db hheld]

theorem call_write (w : Log.Write) (hheld : log.held = .ok db) (h : db.isComplete = true)
    (hwritable : log.readOnly = false) :
    log.call (.write w) =
      (db.log.write w).map fun (outcome, after) =>
        (.outcome outcome, { log with held := .ok { db with log := after } }) := by
  rw [call_of_held log db (.write w) hheld, hwritable, Database.call_write db w h]
  cases db.log.write w <;> rfl

/-- All that a write which succeeds can do. -/
theorem call_write_ok (log' : OpenLog) (w : Log.Write) (answer : Answer)
    (hheld : log.held = .ok db) (h : db.isComplete = true)
    (hcall : log.call (.write w) = .ok (answer, log')) :
    log.readOnly = false ∧ ∃ outcome after, answer = .outcome outcome ∧
      db.log.write w = .ok (outcome, after) ∧
      log' = { log with held := .ok { db with log := after } } := by
  have hwritable : log.readOnly = false := by
    cases hreadOnly : log.readOnly with
    | false => rfl
    | true =>
      rw [call_of_held log db (.write w) hheld, hreadOnly, Database.call_write_readOnly db w h]
        at hcall
      exact nomatch hcall
  rw [call_write log db w hheld h hwritable] at hcall
  cases hwrite : db.log.write w with
  | error fault =>
    rw [hwrite] at hcall
    exact nomatch hcall
  | ok result =>
    rw [hwrite] at hcall
    cases hcall
    exact ⟨hwritable, result.1, result.2, rfl, rfl, rfl⟩

/-- Who reads an open log reads the log in its database. -/
theorem source_of_held (hheld : log.held = .ok db) (h : db.isComplete = true) :
    log.source = db.log.source := by
  have hentries : db.hasEntries = true := Database.has_of_isComplete db .connections h
  rw [source, hheld]
  simp only [Database.source, Database.span, Log.source, hentries, if_true]
  congr 1
  funext id
  rw [Database.fetch, if_pos hentries]

end OpenLog

end ConnectionLog
