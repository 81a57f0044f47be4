import ConnectionLog.Proofs.Files.Calls
import ConnectionLog.Proofs.Files.Opening

/-!
An open log and its file over calls, and over being put back and opened again. Writes
change only what the log holds, and putting it back brings the file up to that, so
that what is opened again by the same path is what was put back.
-/
namespace ConnectionLog.OpenLog

open FileTree

def reopen (path : String) (log : OpenLog) : FileWork LogFault OpenLog := do
  modify log.close
  forWriting path

theorem reopen_eq (path : String) (log : OpenLog) (t : FileTree) :
    reopen path log t = forWriting path (log.close t) := rfl

def reopenToRead (path : String) (log : OpenLog) : FileWork LogFault OpenLog := do
  modify log.close
  let log ← forReading path
  modifyGet log.firstUse

/-- A log that holds a complete database. If it is kept anywhere, then where its path
leads, and if it may not be written to, its file holds the same. -/
structure Holding (path : String) (log : OpenLog) (t : FileTree) (db : Database) : Prop where
  held : log.held = .ok db
  complete : db.isComplete = true
  leads : ∀ place, log.place = some place → Leads path t.home place
  file : ∀ place, log.place = some place →
    ∃ db' ahead, t.node? place = some (.file (.database db' ahead)) ∧
      (log.readOnly = true → db' = db)

theorem holding_of_place (path : String) (log : OpenLog) (t : FileTree) (db : Database)
    (place : Place) (ahead : Bool) (hplace : log.place = some place) (hheld : log.held = .ok db)
    (hcomplete : db.isComplete = true) (hleads : Leads path t.home place)
    (hfile : t.node? place = some (.file (.database db ahead))) : Holding path log t db := by
  refine ⟨hheld, hcomplete, ?_, ?_⟩
  · intro place' hplace'
    rw [hplace, Option.some.injEq] at hplace'
    rw [← hplace']
    exact hleads
  · intro place' hplace'
    rw [hplace, Option.some.injEq] at hplace'
    rw [← hplace']
    exact ⟨db, ahead, hfile, fun _ => rfl⟩

/-- A log that was opened to be written holds a complete database. -/
theorem holding_of_openedAt (path : String) (t t' : FileTree) (log : OpenLog)
    (h : OpenedAt path t log t') : ∃ db, Holding path log t' db := by
  rcases h with ⟨-, hplace, hheld⟩ | ⟨place, db, contents, hleads, hfound, hopened, -⟩
  · refine ⟨Database.empty, hheld, rfl, ?_, ?_⟩
    · intro place hplace'
      rw [hplace] at hplace'
      exact nomatch hplace'
    · intro place hplace'
      rw [hplace] at hplace'
      exact nomatch hplace'
  · obtain ⟨hhome, hplace, hheld, ahead, hfile⟩ := hopened
    rw [← hhome] at hleads
    exact ⟨db.completed,
      holding_of_place path log t' db.completed place ahead hplace hheld rfl hleads hfile⟩

/-- A write that succeeds leaves the log holding what it made. -/
theorem call_write_holding (path : String) (log log' : OpenLog) (t : FileTree)
    (db : Database) (w : Log.Write) (answer : Answer) (h : Holding path log t db)
    (hcall : log.call (.write w) = .ok (answer, log')) :
    ∃ outcome log₁, answer = .outcome outcome ∧ db.log.write w = .ok (outcome, log₁) ∧
      log'.place = log.place ∧ Holding path log' t { db with log := log₁ } := by
  obtain ⟨hwritable, outcome, log₁, hanswer, hwrite, rfl⟩ :=
    call_write_ok log db log' w answer h.held h.complete hcall
  refine ⟨outcome, log₁, hanswer, hwrite, rfl, rfl, h.complete, h.leads, ?_⟩
  intro place hplace
  obtain ⟨db', ahead, hfile, -⟩ := h.file place hplace
  refine ⟨db', ahead, hfile, ?_⟩
  intro hshut
  exact absurd (hshut.symm.trans hwritable) nofun

/-- A log that was put back is in its file. -/
theorem close_node? (path : String) (log : OpenLog) (t : FileTree) (db : Database)
    (place : Place) (h : Holding path log t db) (hplace : log.place = some place) :
    (log.close t).home = t.home ∧
      ∃ ahead, (log.close t).node? place = some (.file (.database db ahead)) := by
  obtain ⟨db', ahead, hfile, hsame⟩ := h.file place hplace
  cases hreadOnly : log.readOnly with
  | true =>
    rw [close, hplace, h.held]
    simp only [hreadOnly]
    exact ⟨trivial, ahead, by rw [hfile, hsame hreadOnly]⟩
  | false =>
    rw [close, hplace, h.held]
    simp only [hreadOnly, hfile]
    refine ⟨rfl, ahead, node?_put_self t place _ ?_⟩
    rw [hfile]
    exact nofun

/-- A log that is put back and opened again holds what it held. -/
theorem reopen_gives (path : String) (log : OpenLog) (t : FileTree) (db : Database)
    (h : Holding path log t db) (hkept : log.place ≠ none) :
    Gives (reopen path log) t fun log' t' => log'.place = log.place ∧ Holding path log' t' db := by
  obtain ⟨place, hplace⟩ := Option.ne_none_iff_exists'.mp hkept
  have hleads := h.leads place hplace
  obtain ⟨hhome, ahead, hfile⟩ := close_node? path log t db place h hplace
  rw [reopen, gives_bind, gives_modify]
  refine Gives.imp _ _ _ _ (forWriting_gives (log.close t) path) ?_
  intro log' t' hopened
  rcases hopened with ⟨hnowhere, -⟩ | ⟨place', found, contents, hleads', hfound, hopened, hbefore⟩
  · exact absurd hleads (hnowhere t.home place)
  · rw [hhome] at hleads'
    have hsame : place' = place := leads_unique path t.home place' place hleads' hleads
    subst hsame
    have hcontents : Contents.database db ahead = contents := hbefore _ hfile
    subst hcontents
    cases hfound
    obtain ⟨hhome', hplace', hheld, ahead', hfile'⟩ := hopened
    have hcomplete := completed_of_isComplete db h.complete
    rw [hcomplete] at hheld hfile'
    rw [← hhome, ← hhome'] at hleads
    exact ⟨hplace'.trans hplace.symm,
      holding_of_place path log' t' db place' ahead' hplace' hheld h.complete hleads hfile'⟩

/-- A log that is put back and opened again to be read holds what it held, if its first
use finds anything. -/
theorem reopenToRead_gives (path : String) (log : OpenLog) (t : FileTree) (db : Database)
    (h : Holding path log t db) (hkept : log.place ≠ none) :
    Gives (reopenToRead path log) t fun log' t' =>
      ∀ db', log'.held = .ok db' → log'.place = log.place ∧ Holding path log' t' db := by
  obtain ⟨place, hplace⟩ := Option.ne_none_iff_exists'.mp hkept
  have hleads := h.leads place hplace
  obtain ⟨hhome, ahead, hfile⟩ := close_node? path log t db place h hplace
  rw [reopenToRead, gives_bind, gives_modify, gives_bind, forReading, gives_adaptExcept]
  rw [← hhome] at hleads
  refine Gives.imp _ _ _ _ (openToRead_gives (log.close t) path place _ hleads hfile) ?_
  rintro log₁ t₁ ⟨hplace₁, hreadOnly₁, hheld₁, hkeeps⟩
  rw [gives_modifyGet]
  intro db' hheld
  have hfile₁ := hkeeps.file _ hfile
  obtain ⟨hfound, hplace', hkeeps'⟩ :=
    firstUse_held t₁ log₁ place _ db' hplace₁ hfile₁ hheld₁ hheld
  cases hfound
  have hfile' := hkeeps'.file _ hfile₁
  rw [← hkeeps.home, ← hkeeps'.home] at hleads
  exact ⟨hplace'.trans hplace.symm,
    holding_of_place path _ _ db place ahead hplace' hheld h.complete hleads hfile'⟩

end ConnectionLog.OpenLog
