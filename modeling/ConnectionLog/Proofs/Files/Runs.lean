import ConnectionLog.Proofs.Files.Gapless
import ConnectionLog.Proofs.Log.Kept

/-!
What an open log answers over a run of writes. Bounds that are answered twice mean that
every fetch between is answered alike, and a connection that was appended is answered as
it was given until it is pruned or the log is cleared.
-/
namespace ConnectionLog.OpenLog

def answer (log : OpenLog) (asked : Call) : Except DatabaseFault Answer :=
  (log.call asked).map (·.1)

/-- The log after a write, which is the same log if the write fails. -/
def after (log : OpenLog) (w : Log.Write) : OpenLog :=
  match log.call (.write w) with
  | .ok (_, log) => log
  | .error _ => log

def afterAll (log : OpenLog) (writes : List Log.Write) : OpenLog := writes.foldl after log

theorem answer_span (log : OpenLog) (db : Database) (hheld : log.held = .ok db)
    (h : db.isComplete = true) : log.answer .span = .ok (.span db.log.span) := by
  rw [answer, call_span log db hheld h]
  rfl

theorem answer_fetch (log : OpenLog) (db : Database) (id : Int) (record : Option Record)
    (hheld : log.held = .ok db) (h : db.isComplete = true)
    (hfetch : db.log.fetch id = .ok record) :
    log.answer (.fetch id) = .ok (.record record) := by
  rw [answer, call_fetch log db id record hheld h hfetch]
  rfl

theorem after_held (log : OpenLog) (db : Database) (w : Log.Write) (hheld : log.held = .ok db)
    (h : db.isComplete = true) (hwritable : log.readOnly = false) :
    (log.after w).held = .ok { db with log := db.log.after w } ∧
      (log.after w).readOnly = false := by
  rw [after, Log.after, call_write log db w hheld h hwritable]
  cases db.log.write w with
  | ok result => exact ⟨rfl, hwritable⟩
  | error fault => exact ⟨hheld, hwritable⟩

/-- An open log is written to as the log in its database is. -/
theorem afterAll_held (log : OpenLog) (db : Database) (writes : List Log.Write)
    (hheld : log.held = .ok db) (h : db.isComplete = true) (hwritable : log.readOnly = false) :
    (log.afterAll writes).held = .ok { db with log := db.log.afterAll writes } ∧
      (log.afterAll writes).readOnly = false := by
  induction writes generalizing log db with
  | nil => exact ⟨hheld, hwritable⟩
  | cons w rest ih =>
    obtain ⟨hheld', hwritable'⟩ := after_held log db w hheld h hwritable
    exact ih (log.after w) { db with log := db.log.after w } hheld' h hwritable'

/-- A log that starts empty holds what its run makes of an empty one. -/
theorem afterAll_held_run (log : OpenLog) (writes : List Log.Write)
    (hheld : log.held = .ok Database.empty) (hwritable : log.readOnly = false) :
    (log.afterAll writes).held = .ok (Database.ofLog (Log.run writes)) ∧
      (log.afterAll writes).readOnly = false :=
  afterAll_held log Database.empty writes hheld rfl hwritable

/-- Whatever is written in between, a log that answers with the same bounds as before
answers every fetch as before. -/
theorem answer_eq_of_span_eq (log : OpenLog) (before more : List Log.Write)
    (hheld : log.held = .ok Database.empty) (hwritable : log.readOnly = false)
    (hlawful : Log.Lawful (before ++ more))
    (hspan : (log.afterAll before).answer .span = (log.afterAll (before ++ more)).answer .span)
    (id : Int) :
    ∃ record, (log.afterAll before).answer (.fetch id) = .ok (.record record) ∧
      (log.afterAll (before ++ more)).answer (.fetch id) = .ok (.record record) := by
  obtain ⟨hfirst, -⟩ := afterAll_held_run log before hheld hwritable
  obtain ⟨hlater, -⟩ := afterAll_held_run log (before ++ more) hheld hwritable
  rw [answer_span _ _ hfirst rfl, answer_span _ _ hlater rfl] at hspan
  simp only [Except.ok.injEq, Answer.span.injEq] at hspan
  have hsame := Log.fetch_of_span_eq before more hlawful hspan
  obtain ⟨record, hfetch⟩ := Log.fetch_of_authored _ (Log.run_authored before) id
  refine ⟨record, answer_fetch _ _ id record hfirst rfl hfetch, ?_⟩
  refine answer_fetch _ _ id record hlater rfl ?_
  change (Log.run (before ++ more)).fetch id = .ok record
  rw [← hsame]
  exact hfetch

/-- Another application is registered, and everything before the one connection there is
is pruned. -/
theorem answer_eq_of_span_eq_registered :
    let c := Seed.connection [1] 0 false 0
    let log : OpenLog := ⟨none, false, .beside, .ok Database.empty⟩
    let before : List Log.Write := [.register "/bin/a", .append c]
    let more : List Log.Write := [.register "/bin/b", .prune 1]
    (log.afterAll before).answer .span = .ok (.span ⟨1, 1⟩) ∧
      (log.afterAll (before ++ more)).answer .span = .ok (.span ⟨1, 1⟩) ∧
      ∃ record, (log.afterAll before).answer (.fetch 1) = .ok (.record record) ∧
        (log.afterAll (before ++ more)).answer (.fetch 1) = .ok (.record record) := by
  intro c log before more
  have hnone : Log.Lawful [] := fun before c rest h => absurd h (by simp)
  have hregistered : ∀ c', Log.Write.append c = .append c' →
      Log.Registered [.register "/bin/a"] c'.appId := by
    intro c' hc
    cases hc
    exact ⟨[], "/bin/a", [], rfl, rfl, List.forall_mem_nil _⟩
  have happ := Log.lawful_append_singleton [] (.register "/bin/a") hnone (by simp)
  have hfirst := Log.lawful_append_singleton _ (.append c) happ hregistered
  have hother := Log.lawful_append_singleton _ (.register "/bin/b") hfirst (by simp)
  have hlawful : Log.Lawful (before ++ more) :=
    Log.lawful_append_singleton _ (.prune 1) hother (by simp)
  exact ⟨rfl, rfl, answer_eq_of_span_eq log before more rfl rfl hlawful rfl 1⟩

/-- A connection appended for an application that is there is answered, by the identifier
it got, as it was given, as long as writes spare it. -/
theorem answer_appended (path : String) (log log' : OpenLog) (t : FileTree) (given : List Int)
    (db : Database) (c : NewConnection) (code id : Int) (app : String)
    (later : List Log.Write) (hreached : Reached path log t given) (hheld : log.held = .ok db)
    (happ : ⟨c.appId, .text app⟩ ∈ db.log.apps) (hreason : c.reason = Reason.ofCode code)
    (hcall : log.call (.write (.append c)) = .ok (.outcome (.id id), log'))
    (hspared : ∀ w ∈ later, w.Spares id) :
    ∃ record, (log'.afterAll later).answer (.fetch id) = .ok (.record (some record)) ∧
      record.decode = c.connection id app := by
  obtain ⟨db', hholding, hauthored⟩ := reached_induct (fun log _ => log.Authored)
    Log.empty_authored (fun log log' w outcome _ => Log.write_authored log log' w outcome)
    path log t given hreached
  have hsame : db = db' := Except.ok.inj (hheld.symm.trans hholding.held)
  subst hsame
  obtain ⟨hwritable, outcome, log₁, houtcome, hwrite, rfl⟩ :=
    call_write_ok log db log' (.append c) _ hheld hholding.complete hcall
  cases houtcome
  have hkeeps := Log.append_keeps db.log log₁ c id app hauthored happ hwrite
  have hkept := Log.afterAll_keeps log₁ later c id app hkeeps hspared
  obtain ⟨hheld', -⟩ := afterAll_held { log with held := .ok { db with log := log₁ } }
    { db with log := log₁ } later rfl hholding.complete hwritable
  refine ⟨c.record id app, ?_, c.decode_record id app code hreason⟩
  exact answer_fetch _ _ id _ hheld' hholding.complete (Log.fetch_of_keeps _ c id app hkept)

/-- A connection of the sixth version, with what comes before it pruned and others
appended behind it. -/
theorem answer_appended_spared :
    let c := Seed.connection [1] 0 true 0
    let start : OpenLog := ⟨none, false, .beside, .ok Database.empty⟩
    let log := start.afterAll [.register "/bin/a", .append c]
    ∃ log' record, log.call (.write (.append c)) = .ok (.outcome (.id 2), log') ∧
      (log'.afterAll [.register "/bin/b", .append c, .prune 2]).answer (.fetch 2) =
        .ok (.record (some record)) ∧
      record.decode = c.connection 2 "/bin/a" := by
  intro c start log
  have hopened : Reached ":memory:" start ⟨[], []⟩ [] :=
    Reached.opened _ _ _ _ rfl rfl rfl
  have happ := Reached.wrote _ _ _ _ (.register "/bin/a") _ hopened rfl
  have hlog : Reached ":memory:" log ⟨[], []⟩ [1] :=
    Reached.wrote _ _ _ _ (.append c) _ happ rfl
  have hspared : ∀ w ∈ [Log.Write.register "/bin/b", .append c, .prune 2], w.Spares 2 := by
    intro w hw
    simp only [List.mem_cons, List.not_mem_nil, or_false] at hw
    rcases hw with rfl | rfl | rfl
    · trivial
    · trivial
    · exact Int.le_refl 2
  have hregistered : (⟨c.appId, .text "/bin/a"⟩ : App) ∈ [⟨1, .text "/bin/a"⟩] :=
    List.mem_cons_self
  obtain ⟨record, hanswer, hdecode⟩ := answer_appended ":memory:" log _ _ _ _ c 1 2 "/bin/a" _
    hlog rfl hregistered rfl rfl hspared
  exact ⟨_, record, rfl, hanswer, hdecode⟩

end ConnectionLog.OpenLog
