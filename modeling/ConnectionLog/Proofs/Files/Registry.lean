import ConnectionLog.Proofs.Files.Runs

/-!
The applications of a log. Until the log is cleared, paths and identifiers stand for each
other: registering two paths gives one identifier only if they are one path, registering
a path again changes nothing, and the connections that carry an identifier are those that
are read with the path it was given for.
-/
namespace ConnectionLog

namespace Log

def DistinctPaths (log : Log) : Prop :=
  ∀ app ∈ log.apps, ∀ app' ∈ log.apps, app.path = app'.path → app = app'

theorem path_ne_of_appOf?_none (log : Log) (path : String) (h : log.appOf? path = none)
    (app : App) (happ : app ∈ log.apps) : app.path ≠ .text path := by
  simpa using List.find?_eq_none.mp h app happ

theorem path_of_appOf? (log : Log) (path : String) (app : App) (h : log.appOf? path = some app) :
    app ∈ log.apps ∧ app.path = .text path :=
  ⟨List.mem_of_find?_eq_some h, by simpa using List.find?_some h⟩

theorem register_distinctPaths (log : Log) (path : String) (h : log.DistinctPaths) :
    (log.register path).2.DistinctPaths := by
  unfold register
  cases hfind : log.appOf? path with
  | some app => exact h
  | none =>
    have hnew := path_ne_of_appOf?_none log path hfind
    intro app happ app' happ' hpath
    rcases List.mem_cons.mp happ with rfl | happ <;>
      rcases List.mem_cons.mp happ' with rfl | happ'
    · rfl
    · exact absurd hpath.symm (hnew app' happ')
    · exact absurd hpath (hnew app happ)
    · exact h app happ app' happ' hpath

theorem write_distinctPaths (log log' : Log) (w : Write) (outcome : Outcome)
    (h : log.DistinctPaths) (hw : log.write w = .ok (outcome, log')) : log'.DistinctPaths := by
  rcases write_cases log log' w outcome hw with
    ⟨path, -, -, rfl⟩ | ⟨c, -, -, -, rfl⟩ | ⟨before, -, -, rfl⟩ | ⟨-, -, rfl⟩
  · exact register_distinctPaths log path h
  · exact h
  · exact h
  · exact List.forall_mem_nil _

/-- No run registers one path twice. -/
theorem run_distinctPaths (writes : List Write) : (run writes).DistinctPaths :=
  afterAll_induct DistinctPaths empty writes (List.forall_mem_nil _)
    fun w _ log outcome log' h => write_distinctPaths log log' w outcome h

/-- The application that was asked for is there under the identifier that was given. -/
theorem register_app_mem (log : Log) (path : String) :
    ⟨(log.register path).1, .text path⟩ ∈ (log.register path).2.apps := by
  unfold register
  cases hfind : log.appOf? path with
  | some app =>
    obtain ⟨hmem, hpath⟩ := path_of_appOf? log path app hfind
    simp only
    rw [← hpath]
    exact hmem
  | none => exact List.mem_cons_self

theorem apps_suffix_register (log : Log) (path : String) :
    log.apps <:+ (log.register path).2.apps := by
  rcases register_apps log path with hsame | hnew
  · exact ⟨[], hsame.symm⟩
  · exact ⟨[_], hnew.symm⟩

/-- A path that is registered keeps its identifier. -/
theorem register_of_mem (log : Log) (h : log.DistinctPaths) (id : Int) (path : String)
    (happ : ⟨id, .text path⟩ ∈ log.apps) : log.register path = (id, log) := by
  unfold register
  cases hfind : log.appOf? path with
  | none => exact absurd rfl (path_ne_of_appOf?_none log path hfind _ happ)
  | some app =>
    obtain ⟨hmem, hpath⟩ := path_of_appOf? log path app hfind
    rw [h app hmem ⟨id, .text path⟩ happ hpath]

/-- Another path gets another identifier. -/
theorem register_id_eq_iff (log : Log) (hauthored : log.Authored) (hpaths : log.DistinctPaths)
    (id : Int) (path other : String) (happ : ⟨id, .text path⟩ ∈ log.apps) :
    (log.register other).1 = id ↔ other = path := by
  constructor
  · intro hid
    have hother := register_app_mem log other
    have hkept := (apps_suffix_register log other).subset happ
    have hsame := (register_authored log other hauthored).distinct _ hother _ hkept hid
    simpa using congrArg App.path hsame
  · rintro rfl
    rw [register_of_mem log hpaths id other happ]

/-- Only clearing takes applications away. -/
theorem write_apps_suffix (log log' : Log) (w : Write) (outcome : Outcome) (hw : w ≠ .clear)
    (h : log.write w = .ok (outcome, log')) : log.apps <:+ log'.apps := by
  rcases write_cases log log' w outcome h with
    ⟨path, -, -, rfl⟩ | ⟨c, -, -, -, rfl⟩ | ⟨before, -, -, rfl⟩ | ⟨hclear, -, -⟩
  · exact apps_suffix_register log path
  · exact List.suffix_refl _
  · exact List.suffix_refl _
  · exact absurd hclear hw

/-- Applications stay until everything is cleared. -/
theorem afterAll_apps_suffix (log : Log) (writes : List Write) (h : ∀ w ∈ writes, w ≠ .clear) :
    log.apps <:+ (log.afterAll writes).apps :=
  afterAll_induct (fun later => log.apps <:+ later.apps) log writes (List.suffix_refl _)
    fun w hw log₁ outcome log₂ hsuffix hwrite =>
      hsuffix.trans (write_apps_suffix log₁ log₂ w outcome (h w hw) hwrite)

theorem entry?_of_mem (log : Log) (h : log.Unbroken) (e : Entry) (he : e ∈ log.entries) :
    log.entry? e.id = some e := by
  cases hfind : log.entry? e.id with
  | none => simpa using List.find?_eq_none.mp hfind e he
  | some found =>
    obtain ⟨hmem, hid⟩ := mem_of_entry? log e.id found hfind
    rw [h.descends.eq_of_id_eq log.lastId log.entries found e hmem he hid]

/-- A connection is read with the path of the application whose identifier it carries. -/
theorem fetch_of_carried (log : Log) (h : log.Authored) (id conn : Int) (path : String)
    (e : Entry) (happ : ⟨id, .text path⟩ ∈ log.apps) (he : log.entry? conn = some e)
    (hcarried : e.appId = .integer id) :
    ∃ record, log.fetch conn = .ok (some record) ∧ record.appId = id ∧ record.path = path := by
  obtain ⟨hmem, hid⟩ := mem_of_entry? log conn e he
  obtain ⟨c, hc⟩ := h.entries e hmem
  have hcid : c.appId = id := by
    rw [hc] at hcarried
    exact Datum.integer.inj hcarried
  have hpath : log.pathOf? e = some (.text path) := by
    simp only [pathOf?, hcarried, find?_app log h _ happ, Option.map_some]
  have hread := c.read_entry e.id path
  rw [← hc] at hread
  exact ⟨c.record e.id path, by simp only [fetch, he, hpath, hread, Except.map], hcid, rfl⟩

/-- What is read carries the identifier of an application, and its path. -/
theorem app_of_fetch (log : Log) (h : log.Authored) (conn : Int) (record : Record)
    (hfetch : log.fetch conn = .ok (some record)) :
    ⟨record.appId, .text record.path⟩ ∈ log.apps := by
  unfold fetch at hfetch
  cases he : log.entry? conn with
  | none =>
    rw [he] at hfetch
    cases hfetch
  | some e =>
    obtain ⟨hmem, -⟩ := mem_of_entry? log conn e he
    obtain ⟨c, hc⟩ := h.entries e hmem
    have hid : e.appId = .integer c.appId := by
      rw [hc]
      rfl
    simp only [he, pathOf?, hid] at hfetch
    cases hfind : log.apps.find? (·.id = c.appId) with
    | none =>
      rw [hfind] at hfetch
      cases hfetch
    | some app =>
      have happ := List.mem_of_find?_eq_some hfind
      have happid : app.id = c.appId := by simpa using List.find?_some hfind
      obtain ⟨path, hpath⟩ := h.texts app happ
      have hread := c.read_entry e.id path
      rw [← hc] at hread
      simp only [hfind, Option.map_some, hpath, hread, Except.map, Except.ok.injEq,
        Option.some.injEq] at hfetch
      have hsame : app = ⟨c.appId, .text path⟩ := by
        rw [← happid, ← hpath]
      rw [← hfetch]
      change (⟨c.appId, .text path⟩ : App) ∈ log.apps
      rw [← hsame]
      exact happ

end Log

namespace OpenLog

/-- What the identifier of an application is good for in a log. -/
structure Registry (log : OpenLog) (path : String) (id : Int) : Prop where
  again : log.call (.write (.register path)) = .ok (.outcome (.id id), log)
  others : ∀ other, ∃ id' log',
    log.call (.write (.register other)) = .ok (.outcome (.id id'), log') ∧
      (id' = id ↔ other = path)
  carried : ∀ db, log.held = .ok db → ∀ e ∈ db.log.entries, e.appId = .integer id →
    ∃ record, log.answer (.fetch e.id) = .ok (.record (some record)) ∧
      record.appId = id ∧ record.path = path
  records : ∀ conn record, log.answer (.fetch conn) = .ok (.record (some record)) →
    (record.appId = id ↔ record.path = path)

/-- The path of an application that is there has one identifier, and its connections carry it. -/
theorem registry_of_mem (log : OpenLog) (writes : List Log.Write) (id : Int) (path : String)
    (hheld : log.held = .ok (Database.ofLog (Log.run writes))) (hwritable : log.readOnly = false)
    (happ : ⟨id, .text path⟩ ∈ (Log.run writes).apps) : Registry log path id := by
  have hauthored := Log.run_authored writes
  have hpaths := Log.run_distinctPaths writes
  refine ⟨?_, ?_, ?_, ?_⟩
  · rw [call_write log _ _ hheld rfl hwritable]
    change Except.map _ (Except.ok (Log.Outcome.id ((Log.run writes).register path).1,
      ((Log.run writes).register path).2)) = _
    rw [Log.register_of_mem (Log.run writes) hpaths id path happ]
    change Except.ok (_, { log with held := .ok (Database.ofLog (Log.run writes)) }) = _
    rw [with_held log _ hheld]
  · intro other
    rw [call_write log _ _ hheld rfl hwritable]
    exact ⟨_, _, rfl,
      Log.register_id_eq_iff (Log.run writes) hauthored hpaths id path other happ⟩
  · intro db hheld' e he hcarried
    obtain rfl : Database.ofLog (Log.run writes) = db :=
      Except.ok.inj (hheld.symm.trans hheld')
    have hentry := Log.entry?_of_mem (Log.run writes) (Log.run_unbroken writes) e he
    obtain ⟨record, hfetch, hid, hpath⟩ :=
      Log.fetch_of_carried (Log.run writes) hauthored id e.id path e happ hentry hcarried
    exact ⟨record, answer_fetch log _ e.id (some record) hheld rfl hfetch, hid, hpath⟩
  · intro conn record hanswer
    obtain ⟨found, hfetch⟩ := Log.fetch_of_authored (Log.run writes) hauthored conn
    rw [answer_fetch log _ conn found hheld rfl hfetch] at hanswer
    cases hanswer
    have hmem := Log.app_of_fetch (Log.run writes) hauthored conn record hfetch
    constructor
    · intro hid
      have hsame := hauthored.distinct _ hmem _ happ hid
      simpa using congrArg App.path hsame
    · intro hpath
      have hsame := hpaths _ hmem _ happ (congrArg Datum.text hpath)
      exact congrArg App.id hsame

/-- Whatever is written after a path was registered, short of clearing the log, leaves
every application as it was, and the identifier keeps its meaning. -/
theorem register_registry (log : OpenLog) (before later : List Log.Write) (path : String)
    (hheld : log.held = .ok Database.empty) (hwritable : log.readOnly = false)
    (hkept : ∀ w ∈ later, w ≠ .clear) :
    ∃ id old new, (log.afterAll before).held = .ok old ∧
      (log.afterAll (before ++ .register path :: later)).held = .ok new ∧
      (log.afterAll before).answer (.write (.register path)) = .ok (.outcome (.id id)) ∧
      old.log.apps <:+ new.log.apps ∧
      Registry (log.afterAll (before ++ .register path :: later)) path id := by
  obtain ⟨hfirst, hfirstWritable⟩ := afterAll_held_run log before hheld hwritable
  obtain ⟨hlast, hlastWritable⟩ :=
    afterAll_held_run log (before ++ .register path :: later) hheld hwritable
  have hrun : Log.run (before ++ .register path :: later) =
      ((Log.run before).register path).2.afterAll later := Log.run_append before _
  have hsuffix := Log.afterAll_apps_suffix ((Log.run before).register path).2 later hkept
  rw [← hrun] at hsuffix
  have happ := hsuffix.subset (Log.register_app_mem (Log.run before) path)
  refine ⟨((Log.run before).register path).1, _, _, hfirst, hlast, ?_, ?_, ?_⟩
  · rw [answer, call_write _ _ _ hfirst rfl hfirstWritable]
    rfl
  · exact (Log.apps_suffix_register (Log.run before) path).trans hsuffix
  · exact registry_of_mem _ _ _ path hlast hlastWritable happ

/-- After the log was cleared an old identifier is given out for another path. -/
theorem register_registry_cleared :
    let c := Seed.connection [1] 0 true 0
    let log : OpenLog := ⟨none, false, .beside, .ok Database.empty⟩
    let before : List Log.Write := [.register "/bin/a", .append c, .clear]
    let later : List Log.Write := [.append c, .register "/bin/a", .prune 1]
    (log.afterAll before).answer (.write (.register "/bin/b")) = .ok (.outcome (.id 1)) ∧
      ∃ id old new, (log.afterAll before).held = .ok old ∧
        (log.afterAll (before ++ .register "/bin/b" :: later)).held = .ok new ∧
        (log.afterAll before).answer (.write (.register "/bin/b")) = .ok (.outcome (.id id)) ∧
        old.log.apps <:+ new.log.apps ∧
        Registry (log.afterAll (before ++ .register "/bin/b" :: later)) "/bin/b" id := by
  intro c log before later
  have hkept : ∀ w ∈ later, w ≠ .clear := by
    intro w hw
    simp only [later, List.mem_cons, List.not_mem_nil, or_false] at hw
    rcases hw with rfl | rfl | rfl <;> exact nofun
  exact ⟨rfl, register_registry log before later "/bin/b" rfl rfl hkept⟩

end OpenLog

end ConnectionLog
