import ConnectionLog.Proofs.Files.Runs
import Mathlib.Logic.Relation

/-!
Identifiers of connections are given out once. That does not rest on the log having no
gaps: others may put rows in under identifiers of their choice, below those that are
there or far above them, and still every identifier that is given out is larger than all
that were used before. When the largest of all was used, none is given out any more.
-/
namespace ConnectionLog

namespace Log

theorem insertEntry_some_ok (log log' : Log) (id : Int) (columns : Columns)
    (h : log.insertEntry (some id) columns = .ok log') :
    log' = ⟨log.apps, columns.entry id :: log.entries, max log.lastId id.toNat⟩ := by
  simp only [insertEntry, bind, Except.bind] at h
  cases hchecked : columns.checked with
  | error fault =>
    rw [hchecked] at h
    exact nomatch h
  | ok value =>
    rw [hchecked] at h
    simp only [insertAt] at h
    cases hentry : log.entry? id with
    | some e =>
      rw [hentry] at h
      exact nomatch h
    | none =>
      rw [hentry] at h
      exact (Except.ok.inj h).symm

/-- The next identifier is given out, unless there is none. -/
theorem write_append (log : Log) (c : NewConnection) :
    log.write (.append c) =
      if maxId < (log.lastId : Int) + 1 then .error .full
      else .ok (.id ((log.lastId : Int) + 1),
        ⟨log.apps, c.entry ((log.lastId : Int) + 1) :: log.entries, log.lastId + 1⟩) := by
  simp only [write, append, push]
  by_cases hfull : maxId < (log.lastId : Int) + 1
  · rw [if_pos hfull, if_pos hfull]
    rfl
  · rw [if_neg hfull, if_neg hfull]
    rfl

/-- The memory of identifiers never goes down. -/
theorem lastId_le_of_write (log log' : Log) (w : Write) (outcome : Outcome)
    (h : log.write w = .ok (outcome, log')) : log.lastId ≤ log'.lastId :=
  (write_bounds log log' w outcome h).2

structure Recalls (log : Log) (used : List Int) : Prop where
  le_last : ∀ id ∈ used, id ≤ log.lastId
  last_mem : log.lastId ≠ 0 → (log.lastId : Int) ∈ used

theorem empty_recalls : empty.Recalls [] := ⟨nofun, fun h => absurd rfl h⟩

/-- An identifier that a write gives out is recalled from then on. -/
theorem write_recalls (log log' : Log) (w : Write) (outcome : Outcome) (used : List Int)
    (h : log.Recalls used) (hw : log.write w = .ok (outcome, log')) :
    log'.Recalls (assigned w outcome ++ used) := by
  rcases write_cases log log' w outcome hw with
    ⟨path, rfl, rfl, rfl⟩ | ⟨c, rfl, -, rfl, rfl⟩ | ⟨before, rfl, rfl, rfl⟩ | ⟨rfl, rfl, rfl⟩
  · refine ⟨?_, ?_⟩
    · rw [register_lastId]
      exact h.le_last
    · rw [register_lastId]
      exact h.last_mem
  · refine ⟨?_, fun _ => List.mem_cons_self⟩
    intro id hid
    rcases List.mem_cons.mp hid with rfl | hid
    · exact Int.le_refl _
    · have hle := h.le_last id hid
      simp only
      omega
  · exact ⟨h.le_last, h.last_mem⟩
  · exact ⟨h.le_last, h.last_mem⟩

/-- A row that is put in below the largest identifier changes nothing about the memory,
and one above it takes its place. -/
theorem insertEntry_recalls (log log' : Log) (id : Int) (columns : Columns) (used : List Int)
    (h : log.Recalls used) (hinsert : log.insertEntry (some id) columns = .ok log') :
    log'.Recalls (id :: used) := by
  rw [insertEntry_some_ok log log' id columns hinsert]
  refine ⟨?_, ?_⟩
  · intro other hother
    rcases List.mem_cons.mp hother with rfl | hother
    · simp only
      omega
    · have hle := h.le_last other hother
      simp only
      omega
  · intro hne
    simp only at hne ⊢
    by_cases hid : log.lastId ≤ id.toNat
    · have hlast : ((max log.lastId id.toNat : Nat) : Int) = id := by omega
      rw [hlast]
      exact List.mem_cons_self
    · have hlast : max log.lastId id.toNat = log.lastId := by omega
      rw [hlast]
      exact List.mem_cons_of_mem id (h.last_mem (by omega))

end Log

/-- A log in the course of its use: the log as it is open, the files, and the identifiers
of connections used so far, those used last in front. -/
structure Course where
  log : OpenLog
  files : FileTree
  used : List Int

namespace Course

open OpenLog

def write (s : Course) (w : Log.Write) : Course where
  log := s.log.after w
  files := s.files
  used :=
    match s.log.call (.write w) with
    | .ok (.outcome outcome, _) => Log.assigned w outcome ++ s.used
    | _ => s.used

def filesWith (s : Course) (db : Database) : FileTree :=
  match s.log.place with
  | none => s.files
  | some place =>
    match s.files.node? place with
    | some (.file (.database _ ahead)) => s.files.put place (.file (.database db ahead))
    | _ => s.files

def insert (s : Course) (id : Int) (columns : Columns) : Course :=
  match s.log.held with
  | .error _ => s
  | .ok db =>
    match db.intrude (.repair (.insertEntry (some id) columns)) with
    | .error _ => s
    | .ok (_, db) => ⟨{ s.log with held := .ok db }, s.filesWith db, id :: s.used⟩

def Opened (path : String) (s : Course) : Prop :=
  ∃ t db, forWriting path t = .ok s.log s.files ∧ s.log.held = .ok db ∧ db.log = Log.empty ∧
    s.used = []

/-- What happens to a log that is kept at a path. Opening it again may also be only to
read it; what is kept nowhere is gone when it is closed. -/
inductive Step (path : String) : Course → Course → Prop
  | write (s : Course) (w : Log.Write) : Step path s (s.write w)
  | insert (s : Course) (id : Int) (columns : Columns) : Step path s (s.insert id columns)
  | reopen (s : Course) (log : OpenLog) (t : FileTree) :
      s.log.place ≠ none → reopen path s.log s.files = .ok log t → Step path s ⟨log, t, s.used⟩
  | reopenToRead (s : Course) (log : OpenLog) (t : FileTree) (db : Database) :
      s.log.place ≠ none → reopenToRead path s.log s.files = .ok log t → log.held = .ok db →
      Step path s ⟨log, t, s.used⟩

abbrev Run (path : String) : Course → Course → Prop := Relation.ReflTransGen (Step path)

structure Sound (path : String) (s : Course) (db : Database) : Prop where
  holding : Holding path s.log s.files db
  recalls : db.log.Recalls s.used

theorem opened_sound (path : String) (s : Course) (h : Opened path s) :
    ∃ db, Sound path s db := by
  obtain ⟨t, db, hopen, hheld, hempty, hused⟩ := h
  obtain ⟨db', hholding⟩ := holding_of_openedAt path t s.files s.log
    (forWriting_gives t path s.log s.files hopen)
  have hsame : db = db' := Except.ok.inj (hheld.symm.trans hholding.held)
  subst hsame
  refine ⟨db, hholding, ?_⟩
  rw [hempty, hused]
  exact Log.empty_recalls

theorem write_sound (path : String) (s : Course) (db : Database) (w : Log.Write)
    (h : Sound path s db) :
    ∃ db', Sound path (s.write w) db' ∧ db.log.lastId ≤ db'.log.lastId := by
  cases hcall : s.log.call (.write w) with
  | error fault =>
    have hsame : s.write w = s := by simp only [write, after, hcall]
    rw [hsame]
    exact ⟨db, h, Nat.le_refl _⟩
  | ok result =>
    obtain ⟨answer, log'⟩ := result
    obtain ⟨outcome, log₁, rfl, hwritten, -, hholding⟩ :=
      call_write_holding path s.log log' s.files db w answer h.holding hcall
    have hafter : s.write w = ⟨log', s.files, Log.assigned w outcome ++ s.used⟩ := by
      simp only [write, after, hcall]
    rw [hafter]
    exact ⟨_, ⟨hholding, Log.write_recalls db.log log₁ w outcome s.used h.recalls hwritten⟩,
      Log.lastId_le_of_write db.log log₁ w outcome hwritten⟩

/-- The file of a log is changed together with it. -/
theorem holding_with (path : String) (s : Course) (db db' : Database)
    (h : Holding path s.log s.files db) (hcomplete : db'.isComplete = true) :
    Holding path { s.log with held := .ok db' } (s.filesWith db') db' := by
  cases hplace : s.log.place with
  | none =>
    refine ⟨rfl, hcomplete, ?_, ?_⟩
    · intro place hplace'
      exact nomatch hplace.symm.trans hplace'
    · intro place hplace'
      exact nomatch hplace.symm.trans hplace'
  | some place =>
    obtain ⟨old, ahead, hfile, -⟩ := h.file place hplace
    have hput : s.filesWith db' = s.files.put place (.file (.database db' ahead)) := by
      simp only [filesWith, hplace, hfile]
    have hnode : (s.files.put place (.file (.database db' ahead))).node? place =
        some (.file (.database db' ahead)) := by
      refine FileTree.node?_put_self s.files place _ ?_
      rw [hfile]
      exact nofun
    rw [hput]
    exact holding_of_place path { s.log with held := .ok db' } _ db' place ahead hplace rfl
      hcomplete (h.leads place hplace) hnode

theorem insert_sound (path : String) (s : Course) (db : Database) (id : Int)
    (columns : Columns) (h : Sound path s db) :
    ∃ db', Sound path (s.insert id columns) db' ∧ db.log.lastId ≤ db'.log.lastId := by
  have hhas := Database.has_of_isComplete db
    (Repair.insertEntry (some id) columns).table h.holding.complete
  have hintrude : db.intrude (.repair (.insertEntry (some id) columns)) =
      (db.log.insertEntry (some id) columns).map fun log => (1, { db with log }) := by
    simp only [Database.intrude, hhas, Bool.not_true, Bool.false_eq_true, if_false, Log.repair]
    cases db.log.insertEntry (some id) columns <;> rfl
  cases hinsert : db.log.insertEntry (some id) columns with
  | error fault =>
    have hsame : s.insert id columns = s := by
      simp only [insert, h.holding.held, hintrude, hinsert, Except.map]
    rw [hsame]
    exact ⟨db, h, Nat.le_refl _⟩
  | ok log' =>
    have hafter : s.insert id columns =
        ⟨{ s.log with held := .ok { db with log := log' } }, s.filesWith { db with log := log' },
          id :: s.used⟩ := by
      simp only [insert, h.holding.held, hintrude, hinsert, Except.map]
    rw [hafter]
    refine ⟨{ db with log := log' }, ⟨?_, ?_⟩, ?_⟩
    · exact holding_with path s db { db with log := log' } h.holding h.holding.complete
    · exact Log.insertEntry_recalls db.log log' id columns s.used h.recalls hinsert
    · rw [Log.insertEntry_some_ok db.log log' id columns hinsert]
      exact Nat.le_max_left _ _

/-- Every step keeps the memory true and never takes it back. -/
theorem step_sound (path : String) (s s' : Course) (db : Database) (h : Sound path s db)
    (hstep : Step path s s') : ∃ db', Sound path s' db' ∧ db.log.lastId ≤ db'.log.lastId := by
  cases hstep with
  | write w => exact write_sound path s db w h
  | insert id columns => exact insert_sound path s db id columns h
  | reopen log t hkept hreopen =>
    have hgives := reopen_gives path s.log s.files db h.holding hkept log t hreopen
    exact ⟨db, ⟨hgives.2, h.recalls⟩, Nat.le_refl _⟩
  | reopenToRead log t db' hkept hreopen hheld =>
    have hgives := reopenToRead_gives path s.log s.files db h.holding hkept log t hreopen
    exact ⟨db, ⟨(hgives db' hheld).2, h.recalls⟩, Nat.le_refl _⟩

/-- The memory stays true through every run. -/
theorem run_sound (path : String) (s s' : Course) (db : Database) (h : Sound path s db)
    (hrun : Run path s s') : ∃ db', Sound path s' db' ∧ db.log.lastId ≤ db'.log.lastId := by
  induction hrun with
  | refl => exact ⟨db, h, Nat.le_refl _⟩
  | tail hrun hstep ih =>
    obtain ⟨db₁, hsound₁, hle₁⟩ := ih
    obtain ⟨db₂, hsound₂, hle₂⟩ := step_sound path _ _ db₁ hsound₁ hstep
    exact ⟨db₂, hsound₂, Nat.le_trans hle₁ hle₂⟩

/-- What an open log answers when a connection is appended. -/
theorem call_append (path : String) (s : Course) (db : Database) (c : NewConnection)
    (h : Sound path s db) :
    s.log.call (.write (.append c)) =
      if s.log.readOnly then .error .readOnly
      else if maxId < (db.log.lastId : Int) + 1 then .error .full
      else .ok (.outcome (.id ((db.log.lastId : Int) + 1)), s.log.after (.append c)) := by
  cases hreadOnly : s.log.readOnly with
  | true =>
    rw [call_of_held s.log db _ h.holding.held, hreadOnly,
      Database.call_write_readOnly db _ h.holding.complete]
    rfl
  | false =>
    have hcall := call_write s.log db (.append c) h.holding.held h.holding.complete hreadOnly
    rw [Log.write_append] at hcall
    by_cases hfull : maxId < (db.log.lastId : Int) + 1
    · rw [if_pos hfull] at hcall
      rw [hcall, if_neg Bool.false_ne_true, if_pos hfull]
      rfl
    · rw [if_neg hfull] at hcall
      simp only [after, hcall, if_neg Bool.false_ne_true, if_neg hfull]
      rfl

/-- What becomes of a connection that is appended in the course of a log's use. -/
structure Fresh (path : String) (s : Course) : Prop where
  above : ∀ c id log', s.log.call (.write (.append c)) = .ok (.outcome (.id id), log') →
    1 ≤ id ∧ ∀ other ∈ s.used, other < id
  given : s.log.readOnly = false → (∀ other ∈ s.used, other < maxId) →
    ∀ c, ∃ id log', s.log.call (.write (.append c)) = .ok (.outcome (.id id), log')
  spent : (∃ last ∈ s.used, maxId ≤ last) → ∀ later, Run path s later → ∀ c,
    later.log.call (.write (.append c)) =
        .error (if later.log.readOnly then .readOnly else .full) ∧
      later.write (.append c) = later

/-- Once the largest identifier was used nothing can be appended, and trying changes nothing. -/
theorem spent_of_sound (path : String) (s : Course) (db : Database) (h : Sound path s db)
    (hlast : maxId ≤ db.log.lastId) (c : NewConnection) :
    s.log.call (.write (.append c)) =
        .error (if s.log.readOnly then .readOnly else .full) ∧
      s.write (.append c) = s := by
  have hfull : maxId < (db.log.lastId : Int) + 1 := by omega
  have hfault : s.log.call (.write (.append c)) =
      .error (if s.log.readOnly then .readOnly else .full) := by
    rw [call_append path s db c h, if_pos hfull]
    cases s.log.readOnly <;> rfl
  refine ⟨hfault, ?_⟩
  simp only [write, after, hfault]

/-- A connection that is appended gets an identifier above all used before, or none is left for
good. -/
theorem run_fresh (path : String) (start s : Course) (hopened : Opened path start)
    (hrun : Run path start s) : Fresh path s := by
  obtain ⟨db₀, hstart⟩ := opened_sound path start hopened
  obtain ⟨db, hsound, -⟩ := run_sound path start s db₀ hstart hrun
  refine ⟨?_, ?_, ?_⟩
  · intro c id log' hcall
    rw [call_append path s db c hsound] at hcall
    split at hcall
    · exact nomatch hcall
    · split at hcall
      · exact nomatch hcall
      · cases hcall
        refine ⟨by omega, ?_⟩
        intro other hother
        have hle := hsound.recalls.le_last other hother
        omega
  · intro hwritable hleft c
    have hlast : ¬ maxId < (db.log.lastId : Int) + 1 := by
      by_cases hzero : db.log.lastId = 0
      · rw [hzero]
        decide
      · have hlt := hleft _ (hsound.recalls.last_mem hzero)
        omega
    rw [call_append path s db c hsound, hwritable, if_neg Bool.false_ne_true, if_neg hlast]
    exact ⟨_, _, rfl⟩
  · rintro ⟨last, hmem, hmax⟩ later hlater c
    obtain ⟨db', hsound', hle⟩ := run_sound path s later db hsound hlater
    have hlast := hsound.recalls.le_last last hmem
    exact spent_of_sound path later db' hsound' (by omega) c

/-- Someone puts in a row below the others and then one under the largest identifier.
After the log was cleared and opened again, no identifier is left. -/
theorem run_fresh_spent :
    ∃ start mid last, Opened "log" start ∧ Run "log" start mid ∧ Run "log" mid last ∧
      mid.used = [-5, 1] ∧ last.used = [maxId, -5, 1] ∧ Fresh "log" mid ∧ Fresh "log" last := by
  let c := Seed.connection [1] 0 false 0
  let files (log : Log) : FileTree :=
    ⟨["w"], [(["w", "log"], .file (.database (Database.ofLog log) true))]⟩
  let kept (log : Log) : OpenLog :=
    ⟨some ["w", "log"], false, .beside, .ok (Database.ofLog log)⟩
  let apps : List App := [⟨1, .text "/bin/a"⟩]
  let below : Log := ⟨apps, [Columns.entry [] (-5), c.entry 1], 1⟩
  let spent : Log := ⟨apps, [Columns.entry [] maxId, Columns.entry [] (-5), c.entry 1],
    maxId.toNat⟩
  let cleared : Log := ⟨[], [], maxId.toNat⟩
  have hmade : ∀ log, FileTree.makeDirectories "log" (files log) = .ok ⟨⟩ (files log) :=
    fun _ => rfl
  have hlocated : ∀ log, FileTree.locate .creating "log" (files log) =
      .ok (⟨"log", .creating, .beside, true⟩, some ["w", "log"]) (files log) := fun _ => rfl
  have hwriting : ∀ log, forWriting "log" (files log) = .ok (kept log) (files log) := by
    intro log
    simp only [forWriting, openToWrite, bind, EStateM.bind, EStateM.adaptExcept, hmade, hlocated]
    rfl
  let start : Course := ⟨kept Log.empty, files Log.empty, []⟩
  have hopened : Opened "log" start :=
    ⟨files Log.empty, Database.empty, hwriting Log.empty, rfl, rfl, rfl⟩
  have happ : Run "log" start _ :=
    Relation.ReflTransGen.single (Step.write start (.register "/bin/a"))
  have hfirst := happ.tail (Step.write _ (.append c))
  have hmid : Run "log" start ⟨kept below, files below, [-5, 1]⟩ :=
    hfirst.tail (Step.insert _ (-5) [])
  have hspent : Run "log" ⟨kept below, files below, [-5, 1]⟩
      ⟨kept spent, files spent, [maxId, -5, 1]⟩ :=
    Relation.ReflTransGen.single (Step.insert _ maxId [])
  have hcleared : Run "log" ⟨kept below, files below, [-5, 1]⟩
      ⟨kept cleared, files spent, [maxId, -5, 1]⟩ := hspent.tail (Step.write _ .clear)
  have hlast : Run "log" ⟨kept below, files below, [-5, 1]⟩
      ⟨kept cleared, files cleared, [maxId, -5, 1]⟩ :=
    hcleared.tail (Step.reopen _ _ _ (Option.some_ne_none _)
      ((reopen_eq "log" _ _).trans (hwriting cleared)))
  exact ⟨start, _, _, hopened, hmid, hlast, rfl, rfl,
    run_fresh "log" start _ hopened hmid,
    run_fresh "log" start _ hopened (hmid.trans hlast)⟩

end Course

end ConnectionLog
