import ConnectionLog.Command.Seed
import ConnectionLog.Proofs.Files.Calls
import ConnectionLog.Proofs.Log.Lawful
import ConnectionLog.Proofs.Table.Following

/-!
A log that is written to and a table that looks at it, in turns of any order. Once
the writer pauses and the table is brought up to date, it shows the log as it is,
whatever it had cached before.
-/
namespace ConnectionLog

structure Session where
  log : OpenLog
  table : Table

namespace Session

inductive Move where
  | write (w : Log.Write)
  | look (a : Table.Action)

def step (s : Session) : Move → Session
  | .write w =>
    match s.log.call (.write w) with
    | .ok (_, log) => { s with log }
    | .error _ => s
  | .look a => { s with table := s.table.act s.log.source a }

def run (s : Session) (moves : List Move) : Session := moves.foldl step s

def writes (moves : List Move) : List Log.Write :=
  moves.filterMap fun
    | .write w => some w
    | .look _ => none

theorem run_append_singleton (s : Session) (moves : List Move) (m : Move) :
    s.run (moves ++ [m]) = (s.run moves).step m := by
  simp only [run, List.foldl_append, List.foldl_cons, List.foldl_nil]

structure Holds (store : OpenLog) (log : Log) : Prop where
  held : store.held = .ok (Database.ofLog log)
  writable : store.readOnly = false

theorem source_of_holds (store : OpenLog) (log : Log) (h : Holds store log) :
    store.source = log.source :=
  OpenLog.source_of_held store (Database.ofLog log) h.held rfl

theorem step_write_holds (s : Session) (log : Log) (w : Log.Write) (h : Holds s.log log) :
    Holds (s.step (.write w)).log (log.after w) ∧ (s.step (.write w)).table = s.table := by
  have hcall := OpenLog.call_write s.log (Database.ofLog log) w h.held rfl h.writable
  change _ = (log.write w).map _ at hcall
  rw [step, hcall, Log.after]
  cases log.write w with
  | ok result => exact ⟨⟨rfl, h.writable⟩, rfl⟩
  | error fault => exact ⟨h, rfl⟩

structure Tracks (writes : List Log.Write) (s : Session) : Prop where
  holds : Holds s.log (Log.run writes)
  follows : s.table.Follows (Log.run writes)

/-- A table goes on following the log through writes and looks. -/
theorem step_tracks (s : Session) (before : List Log.Write) (m : Move)
    (hlawful : Log.Lawful (before ++ writes [m])) (h : Tracks before s) :
    Tracks (before ++ writes [m]) (s.step m) := by
  have hunbroken := Log.run_unbroken before
  cases m with
  | write w =>
    have hjoined := Log.run_joined before (hlawful.of_append before [w])
    obtain ⟨hholds, htable⟩ := step_write_holds s (Log.run before) w h.holds
    change Tracks (before ++ [w]) _
    refine ⟨?_, ?_⟩
    · rw [Log.run_append_singleton]
      exact hholds
    · rw [Log.run_append_singleton, htable]
      exact Table.after_follows (Log.run before) s.table w hunbroken hjoined h.follows
  | look a =>
    change Tracks (before ++ []) _
    rw [List.append_nil, step, source_of_holds s.log (Log.run before) h.holds]
    exact ⟨h.holds, Table.act_follows (Log.run before) s.table a hunbroken h.follows⟩

theorem run_tracks (s : Session) (moves : List Move) (hlawful : Log.Lawful (writes moves))
    (h : Tracks [] s) : Tracks (writes moves) (s.run moves) := by
  induction moves using List.reverseRecOn with
  | nil => exact h
  | append_singleton moves m ih =>
    have hsplit : writes (moves ++ [m]) = writes moves ++ writes [m] := List.filterMap_append
    rw [hsplit] at hlawful ⊢
    rw [run_append_singleton]
    exact step_tracks _ (writes moves) m hlawful (ih (hlawful.of_append _ _))

/-- A table that is up to date stays so while nobody writes. -/
theorem run_looks_span (s : Session) (log : Log) (looks : List Move)
    (hquiet : writes looks = []) (hholds : Holds s.log log) (hspan : s.table.span = log.span) :
    (s.run looks).table.span = log.span := by
  induction looks generalizing s with
  | nil => exact hspan
  | cons m rest ih =>
    cases m with
    | write w => exact nomatch hquiet
    | look a =>
      refine ih (s.step (.look a)) hquiet hholds ?_
      rw [step, source_of_holds s.log log hholds]
      rcases Table.act_span_cases log s.table a with ⟨-, hnew⟩ | ⟨-, hsame⟩
      · exact hnew
      · exact hsame.trans hspan

/-- The connections of rows that are read one after the other. -/
theorem exists_connections (answer : Nat → Except (ReadError DatabaseFault) Row)
    (first : Int) (start count : Nat)
    (h : ∀ row, start ≤ row → row < start + count →
      ∃ c : Connection, answer row = .ok (some c) ∧ c.id = first + row) :
    ∃ connections : List Connection,
      (List.range' start count).map answer = connections.map (fun c => .ok (some c)) ∧
        connections.map (·.id) = Span.idsFrom (first + start) count := by
  induction count generalizing start with
  | zero => exact ⟨[], rfl, rfl⟩
  | succ count ih =>
    obtain ⟨c, hanswer, hid⟩ := h start (Nat.le_refl start) (by omega)
    obtain ⟨connections, hanswers, hids⟩ := ih (start + 1) fun row hstart hrow =>
      h row (by omega) (by omega)
    refine ⟨c :: connections, ?_, ?_⟩
    · rw [List.range'_succ, List.map_cons, List.map_cons, hanswers, hanswer]
    · rw [List.map_cons, hids, hid, Span.idsFrom_succ]
      congr 2
      omega

/-- What a row of an up-to-date table stands for. -/
theorem row_record (log : Log) (hunbroken : log.Unbroken) (hjoined : log.Joined) (row : Nat)
    (hrow : row < log.span.rows) :
    ∃ record, log.fetch (log.span.first + row) = .ok (some record) ∧
      record.decode.id = log.span.first + row ∧
      Window.plainRead log.span log.source row = .ok (some record.decode) := by
  obtain ⟨hid, e, he⟩ := Log.entry?_of_row log hunbroken row hrow
  obtain ⟨c, path, -, -, hfetch⟩ := Log.fetch_of_entry? log hjoined _ e he
  refine ⟨c.record (log.span.first + row) path, hfetch, rfl, ?_⟩
  have hsource : log.source.fetch (log.span.first + row) =
      .ok (some (c.record (log.span.first + row) path)) := hfetch
  simp only [Window.plainRead, hid, Window.load, hsource, Option.map_some]

/-- The table shows a log exactly. Its bounds are those of the log, each of its rows is
the connection of its identifier as the log has it, and the rows in their order are the
connections of the log in theirs. -/
structure Shows (s : Session) (db : Database) (connections : List Connection) : Prop where
  held : s.log.held = .ok db
  span : s.log.call .span = .ok (.span s.table.span, s.log)
  row : ∀ row < s.table.rows, ∃ record,
    s.log.call (.fetch (s.table.span.first + row)) = .ok (.record (some record), s.log) ∧
      (s.table.read s.log.source row).answer = .ok (some record.decode) ∧
      record.decode.id = s.table.span.first + row
  listing : s.table.listing s.log.source 0 s.table.rows =
    connections.map fun c => .ok (some c)
  ids : connections.map (·.id) = db.log.ids.reverse
  increasing : (connections.map (·.id)).Pairwise (· < ·)

/-- A table with the bounds of the log shows it exactly. -/
theorem shows_of_tracks (s : Session) (before : List Log.Write)
    (hlawful : Log.Lawful before) (h : Tracks before s)
    (hspan : s.table.span = (Log.run before).span) :
    ∃ connections, Shows s (Database.ofLog (Log.run before)) connections := by
  have hunbroken := Log.run_unbroken before
  have hjoined := Log.run_joined before hlawful
  have hsource := source_of_holds s.log (Log.run before) h.holds
  have hcurrent := h.follows.current hspan.symm
  have hrows : s.table.rows = (Log.run before).span.rows := congrArg Span.rows hspan
  obtain ⟨connections, hlisting, hids⟩ := exists_connections
    (Window.plainRead (Log.run before).span (Log.run before).source)
    (Log.run before).span.first 0 s.table.rows (by
      intro row _ hrow
      obtain ⟨record, -, hid, hread⟩ := row_record (Log.run before) hunbroken hjoined row
        (by omega)
      exact ⟨record.decode, hread, hid⟩)
  have hstored : Span.idsFrom ((Log.run before).span.first + (0 : Nat)) s.table.rows =
      (Log.run before).ids.reverse := by
    rw [Log.ids_reverse (Log.run before) hunbroken, Span.ids, hrows]
    congr 1
    omega
  refine ⟨connections, h.holds.held, ?_, ?_, ?_, ?_, ?_⟩
  · rw [hspan]
    exact OpenLog.call_span s.log (Database.ofLog (Log.run before)) h.holds.held rfl
  · intro row hrow
    obtain ⟨record, hfetch, hid, hread⟩ := row_record (Log.run before) hunbroken hjoined row
      (by omega)
    rw [hspan]
    refine ⟨record, ?_, ?_, hid⟩
    · exact OpenLog.call_fetch s.log (Database.ofLog (Log.run before)) _ _ h.holds.held rfl hfetch
    · rw [hsource, Table.read, Window.read_of_current s.table.window _ row hcurrent, ← hread,
        ← hspan]
      rfl
  · rw [hsource, Table.listing_of_current s.table _ 0 _ hcurrent, hspan, hlisting]
  · rw [hids, hstored]
    rfl
  · rw [hids]
    exact Span.pairwise_idsFrom _ _

/-- Once the writer has paused, a table that is brought up to date shows the log as it
is, whatever was written and looked at before, and goes on to do so. -/
theorem run_shows (log : OpenLog) (hosts : HostNames) (resolve : Bool)
    (before after : List Move) (hheld : log.held = .ok Database.empty)
    (hwritable : log.readOnly = false) (hlawful : Log.Lawful (writes before))
    (hquiet : writes after = []) :
    ∃ db connections,
      Shows (run ⟨log, Table.new hosts resolve⟩ (before ++ .look .update :: after))
        db connections := by
  have hstart : Tracks [] ⟨log, Table.new hosts resolve⟩ :=
    ⟨⟨hheld, hwritable⟩, Table.new_follows hosts resolve⟩
  have hwrites : writes (before ++ .look .update :: after) = writes before := by
    have hsplit : writes (before ++ .look .update :: after) = writes before ++ writes after :=
      List.filterMap_append
    rw [hsplit, hquiet, List.append_nil]
  have hbefore := run_tracks _ before hlawful hstart
  have htracks := run_tracks _ (before ++ .look .update :: after)
    (by rw [hwrites]; exact hlawful) hstart
  rw [hwrites] at htracks
  have hspan : (run ⟨log, Table.new hosts resolve⟩ (before ++ .look .update :: after)).table.span =
      (Log.run (writes before)).span := by
    rw [run, List.foldl_append, List.foldl_cons]
    refine run_looks_span _ (Log.run (writes before)) after hquiet hbefore.holds ?_
    change (Table.act _ (OpenLog.source (run _ before).log) .update).span = _
    rw [source_of_holds _ _ hbefore.holds, Table.act_span]
    rfl
  obtain ⟨connections, hshows⟩ := shows_of_tracks _ (writes before) hlawful htracks hspan
  exact ⟨_, connections, hshows⟩

/-- Connections are pruned and appended behind the back of a table, which then reads a
row that has lost its connection. -/
def prunedMeanwhile (c : NewConnection) : List Move :=
  [.write (.register "/bin/a"), .write (.append c), .write (.append c), .look .update,
    .write (.prune 2), .look (.read 0), .write (.append c)]

theorem prunedMeanwhile_lawful (c : NewConnection) (h : c.appId = 1) :
    Log.Lawful (writes (prunedMeanwhile c)) := by
  have hregistered : ∀ rest : List Log.Write, (∀ w ∈ rest, w ≠ .clear) →
      ∀ c', Log.Write.append c = .append c' →
        Log.Registered (.register "/bin/a" :: rest) c'.appId := by
    intro rest hrest c' hc
    rw [← Log.Write.append.inj hc, h]
    exact ⟨[], "/bin/a", rest, rfl, rfl, hrest⟩
  have hnone : Log.Lawful [] := fun before c rest h => absurd h (by simp)
  have happ := Log.lawful_append_singleton [] (.register "/bin/a") hnone (by simp)
  have hfirst := Log.lawful_append_singleton _ (.append c) happ (hregistered [] (by simp))
  have hsecond := Log.lawful_append_singleton _ (.append c) hfirst
    (hregistered [.append c] (by simp))
  have hpruned := Log.lawful_append_singleton _ (.prune 2) hsecond (by simp)
  exact Log.lawful_append_singleton _ (.append c) hpruned
    (hregistered [.append c, .append c, .prune 2] (by simp))

/-- The table has cached a row without a record, and shows the log after its next look. -/
theorem run_shows_prunedMeanwhile :
    let c := Seed.connection [1] 0 false 0
    let log : OpenLog := ⟨none, false, .beside, .ok Database.empty⟩
    let start : Session := ⟨log, Table.new HostNames.empty false⟩
    (start.run (prunedMeanwhile c)).table.window.cache.entry = some ⟨0, 1, none⟩ ∧
      ∃ db connections,
        Shows (start.run (prunedMeanwhile c ++ .look .update :: [.look (.read 1)]))
          db connections := by
  intro c log start
  have hcached : (start.run (prunedMeanwhile c)).table.window.cache.entry =
      some ⟨0, 1, none⟩ := by
    decide +kernel
  exact ⟨hcached, run_shows log HostNames.empty false (prunedMeanwhile c)
    [.look (.read 1)] rfl rfl (prunedMeanwhile_lawful c rfl) rfl⟩

end Session

end ConnectionLog
