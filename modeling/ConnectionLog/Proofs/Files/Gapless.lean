import ConnectionLog.Command.Seed
import ConnectionLog.Proofs.Files.Reopening
import ConnectionLog.Proofs.Log.Interval

/-!
An open log has no gaps, however it came about: over any run of writes that starts
with an empty log, and however often the log is put back and opened again on the way,
to write to it or only to read it.
-/
namespace ConnectionLog.OpenLog

open FileTree

/-- The logs that come of one that was opened empty by a path, each with the files as
they are by then and the identifiers given out so far. A log that is kept nowhere is
gone when it is closed, so that it cannot be opened again. -/
inductive Reached (path : String) : OpenLog → FileTree → List Int → Prop
  | opened (log : OpenLog) (t t' : FileTree) (db : Database) :
      forWriting path t = .ok log t' → log.held = .ok db → db.log = Log.empty →
      Reached path log t' []
  | wrote (log log' : OpenLog) (t : FileTree) (given : List Int) (w : Log.Write)
      (outcome : Log.Outcome) :
      Reached path log t given → log.call (.write w) = .ok (.outcome outcome, log') →
      Reached path log' t (Log.assigned w outcome ++ given)
  | reopened (log log' : OpenLog) (t t' : FileTree) (given : List Int) :
      Reached path log t given → log.place ≠ none → reopen path log t = .ok log' t' →
      Reached path log' t' given
  | reopenedToRead (log log' : OpenLog) (t t' : FileTree) (given : List Int) (db : Database) :
      Reached path log t given → log.place ≠ none → reopenToRead path log t = .ok log' t' →
      log'.held = .ok db → Reached path log' t' given

/-- What holds of an empty log and is kept by every write holds of a log however it came
about, since opening it again changes nothing in it. -/
theorem reached_induct (P : Log → List Int → Prop) (hempty : P Log.empty [])
    (hwrite : ∀ log log' w outcome given, P log given → log.write w = .ok (outcome, log') →
      P log' (Log.assigned w outcome ++ given))
    (path : String) (log : OpenLog) (t : FileTree) (given : List Int)
    (h : Reached path log t given) : ∃ db, Holding path log t db ∧ P db.log given := by
  induction h with
  | opened log t t' db hopen hheld hnone =>
    obtain ⟨db', hholding⟩ := holding_of_openedAt path t t' log
      (forWriting_gives t path log t' hopen)
    have hsame : db = db' := Except.ok.inj (hheld.symm.trans hholding.held)
    subst hsame
    refine ⟨db, hholding, ?_⟩
    rw [hnone]
    exact hempty
  | wrote log log' t given w outcome hreached hcall ih =>
    obtain ⟨db, hholding, hbefore⟩ := ih
    obtain ⟨outcome', log₁, houtcome, hwritten, -, hholding'⟩ :=
      call_write_holding path log log' t db w _ hholding hcall
    cases houtcome
    exact ⟨_, hholding', hwrite db.log log₁ w outcome given hbefore hwritten⟩
  | reopened log log' t t' given hreached hkept hreopen ih =>
    obtain ⟨db, hholding, hbefore⟩ := ih
    exact ⟨db, (reopen_gives path log t db hholding hkept log' t' hreopen).2, hbefore⟩
  | reopenedToRead log log' t t' given db' hreached hkept hreopen hheld ih =>
    obtain ⟨db, hholding, hbefore⟩ := ih
    have hgives := reopenToRead_gives path log t db hholding hkept log' t' hreopen
    exact ⟨db, (hgives db' hheld).2, hbefore⟩

/-- A reached log holds a database that remembers what was given out. -/
theorem reached_remembers (path : String) (log : OpenLog) (t : FileTree) (given : List Int)
    (h : Reached path log t given) :
    ∃ db, Holding path log t db ∧ db.log.Remembers given :=
  reached_induct Log.Remembers Log.empty_remembers
    (fun log log' w outcome given => Log.write_remembers log log' w outcome given)
    path log t given h

/-- The bounds of a log are those of nothing, or of exactly the connections that are
there, up to the largest identifier ever given out. So the table has a row for each
connection, and a connection for each row. -/
structure Gapless (log : OpenLog) (given : List Int) (db : Database) (s : Span) : Prop where
  held : log.held = .ok db
  span : log.call .span = .ok (.span s, log)
  connections : db.log.entries = [] ∧ s = Span.empty ∨
    1 ≤ s.first ∧ s.first ≤ s.last ∧
      (∀ id, (∃ e ∈ db.log.entries, e.id = id) ↔ s.first ≤ id ∧ id ≤ s.last) ∧
      s.last ∈ given ∧ ∀ id ∈ given, id ≤ s.last
  rows : s.rows = db.log.entries.length
  records : ∀ row < s.rows, ∃ id e, s.id? row = some id ∧ db.log.entry? id = some e

/-- However a log was reached, its bounds are exactly those of the connections it holds. -/
theorem reached_gapless (path : String) (log : OpenLog) (t : FileTree) (given : List Int)
    (h : Reached path log t given) : ∃ db s, Gapless log given db s := by
  obtain ⟨db, hholding, hremembers⟩ := reached_remembers path log t given h
  have hunbroken := hremembers.unbroken
  refine ⟨db, db.log.span, hholding.held, call_span log db hholding.held hholding.complete, ?_,
    Log.span_rows db.log hunbroken, ?_⟩
  · by_cases hnil : db.log.entries = []
    · exact Or.inl ⟨hnil, Log.span_of_nil db.log hnil⟩
    · have hfirst := Log.one_le_low db.log hunbroken
      have hle := (Log.low_le_lastId_iff db.log).mpr hnil
      have hlast : db.log.lastId ≠ 0 := by omega
      rw [Log.span_of_ne_nil db.log hunbroken hnil]
      exact Or.inr ⟨hfirst, hle, Log.mem_iff_low db.log hunbroken, hremembers.last_mem hlast,
        hremembers.le_last⟩
  · intro row hrow
    obtain ⟨hid, e, he⟩ := Log.entry?_of_row db.log hunbroken row hrow
    exact ⟨db.log.span.first + row, e, hid, he⟩

/-- A log in a file, written to before and after it was opened again. -/
theorem reached_gapless_reopened :
    ∃ log t, Reached "log" log t [3, 2, 1] ∧ ∃ db, Gapless log [3, 2, 1] db ⟨2, 3⟩ := by
  let first := Seed.connection [1] 0 false 0
  let second := Seed.connection [1] 0 true 1
  let files (log : Log) : FileTree :=
    ⟨["w"], [(["w", "log"], .file (.database (Database.ofLog log) true))]⟩
  let kept (log : Log) : OpenLog :=
    ⟨some ["w", "log"], false, .beside, .ok (Database.ofLog log)⟩
  let pruned : Log := ⟨[⟨1, .text "/bin/a"⟩], [second.entry 2], 2⟩
  let last : Log := ⟨[⟨1, .text "/bin/a"⟩], [first.entry 3, second.entry 2], 3⟩
  have hmade : ∀ log, makeDirectories "log" (files log) = .ok ⟨⟩ (files log) := fun _ => rfl
  have hlocated : ∀ log, locate .creating "log" (files log) =
      .ok (⟨"log", .creating, .beside, true⟩, some ["w", "log"]) (files log) := fun _ => rfl
  have hwriting : ∀ log, forWriting "log" (files log) = .ok (kept log) (files log) := by
    intro log
    simp only [forWriting, openToWrite, bind, EStateM.bind, EStateM.adaptExcept, hmade, hlocated]
    rfl
  have hopened : Reached "log" (kept Log.empty) (files Log.empty) [] :=
    Reached.opened _ _ _ _ (hwriting Log.empty) rfl rfl
  have happ := Reached.wrote _ _ _ _ (.register "/bin/a") _ hopened rfl
  have hfirst := Reached.wrote _ _ _ _ (.append first) _ happ rfl
  have hsecond := Reached.wrote _ _ _ _ (.append second) _ hfirst rfl
  have hpruned : Reached "log" (kept pruned) (files Log.empty) [2, 1] :=
    Reached.wrote _ _ _ _ (.prune 2) _ hsecond rfl
  have hreopened := Reached.reopened _ _ _ _ _ hpruned (Option.some_ne_none _)
    ((reopen_eq "log" _ _).trans (hwriting _))
  have hlast : Reached "log" (kept last) _ [3, 2, 1] :=
    Reached.wrote _ _ _ _ (.append first) _ hreopened rfl
  obtain ⟨db, s, hgapless⟩ := reached_gapless "log" (kept last) _ [3, 2, 1] hlast
  have hcall : (kept last).call .span = .ok (.span ⟨2, 3⟩, kept last) := rfl
  have hspan := hgapless.span.symm.trans hcall
  simp only [Except.ok.injEq, Prod.mk.injEq, Answer.span.injEq, and_true] at hspan
  rw [hspan] at hgapless
  exact ⟨kept last, _, hlast, db, hgapless⟩

end ConnectionLog.OpenLog
