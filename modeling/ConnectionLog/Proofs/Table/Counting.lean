import ConnectionLog.Command.Seed
import ConnectionLog.Proofs.Table.Notices
import ConnectionLog.Proofs.Table.Reading

/-!
What a reader of the lines makes of them who only keeps count of the rows. Who knows the
rows that the table had at the last look can count on from there. At the first look the
table still has its own loading to announce, and that is told as a reset to the rows of
this look, so what the look itself announces is counted a second time.
-/
namespace ConnectionLog

/-- The count of rows after a line, if the line fits the count before it. Rows come in at
the end only. -/
def WatchLine.count? (n : Int) : WatchLine → Option Int
  | .window _ rows => some rows
  | .reset _ rows => some rows
  | .removed count _ => some (n - count)
  | .inserted count start => if start = n then some (n + count) else none
  | .changed _ _ => some n
  | .row _ => some n

def WatchLine.countAll (n : Int) (lines : List WatchLine) : Option Int :=
  lines.foldlM count? n

def Event.count? (rows : Nat) (n : Int) : Event → Option Int
  | .reset => some rows
  | .removed _ count => some (n - count)
  | .inserted start count => if start = n then some (n + count) else none
  | .changed _ _ => some n

def Event.countAll (rows : Nat) (n : Int) (events : List Event) : Option Int :=
  events.foldlM (count? rows) n

def Told.Counts {ε : Type} (told : Told ε) (span : Span) : Prop :=
  ∃ t, told.outcome = .ok t ∧ t.span = span ∧
    WatchLine.countAll 0 told.lines = some (span.rows : Int)

theorem Told.andThen_assoc {ε : Type} (told : Told ε) (next later : Table → Told ε) :
    (told.andThen next).andThen later = told.andThen fun t => (next t).andThen later := by
  cases htold : told.outcome with
  | error e => simp only [andThen, htold]
  | ok t =>
    cases hnext : (next t).outcome with
    | error e => simp only [andThen, htold, hnext]
    | ok t' => simp only [andThen, htold, hnext, List.append_assoc]

namespace WatchLine

theorem countAll_append (n : Int) (lines more : List WatchLine) :
    countAll n (lines ++ more) = (countAll n lines).bind fun n => countAll n more :=
  List.foldlM_append

/-- Rows that are printed do not count. -/
theorem countAll_rows (n : Int) (lines : List RowLine) :
    countAll n (lines.map .row) = some n := by
  induction lines with
  | nil => rfl
  | cons line rest ih => exact ih

end WatchLine

namespace Event

theorem countAll_append (rows : Nat) (n : Int) (events more : List Event) :
    countAll rows n (events ++ more) =
      (countAll rows n events).bind fun n => countAll rows n more :=
  List.foldlM_append

theorem countAll_singleton (rows : Nat) (n : Int) (e : Event) :
    countAll rows n [e] = e.count? rows n := Option.bind_fun_some _

end Event

namespace Plan

def events (p : Plan) : List Event := p.edits.filterMap Edit.event?

theorem countAll_trimTo (old new : Span) (rows : Nat) (n : Int) (h : old.first ≤ new.first) :
    Event.countAll rows n ((trimTo old new).toList.filterMap Edit.event?) =
      some (n - (new.first - old.first)) := by
  by_cases htrim : old.first < new.first
  · have hcount : ((new.first - old.first).natAbs : Int) = new.first - old.first := by omega
    rw [trimTo_of_lt old new htrim, ← hcount]
    exact Event.countAll_singleton rows n _
  · rw [trimTo_of_not_lt old new htrim, show n - (new.first - old.first) = n by omega]
    rfl

/-- Rows that come in fit the count of those from the new lower bound to the old upper one. -/
theorem countAll_growTo (old new : Span) (rows : Nat) (n : Int) (hinside : new.first < old.last)
    (h : old.last ≤ new.last) :
    Event.countAll rows n ((growTo old new).toList.filterMap Edit.event?) =
      if n = old.last - new.first + 1 ∨ new.last = old.last then
        some (n + (new.last - old.last)) else none := by
  by_cases hgrow : old.last < new.last
  · have hstart : (((old.last - new.first).natAbs + 1 : Nat) : Int) =
        old.last - new.first + 1 := by omega
    have hcount : ((new.last - old.last).natAbs : Int) = new.last - old.last := by omega
    rw [growTo_of_lt old new hgrow]
    refine (Event.countAll_singleton rows n _).trans ?_
    rw [Event.count?, hstart, hcount]
    congr 1
    simp only [eq_iff_iff]
    omega
  · have hsame : new.last = old.last := by omega
    rw [growTo_of_not_lt old new hgrow, if_pos (Or.inr hsame), hsame, Int.sub_self,
      Int.add_zero]
    rfl

/-- Who counts what a move announces ends with as many rows as it brings in more than it
takes away. Rows that come in fit only the count of the rows that there were. -/
theorem countAll_of_overlap (old new : Span) (rows : Nat) (n : Int) (hold : old.Countable)
    (hnew : new.Countable) (h : ¬ NoOverlap old new) :
    Event.countAll rows n (between old new).events =
      if n = old.rows ∨ new.last = old.last then some (n + (new.rows - old.rows)) else none := by
  obtain ⟨hfirst, hinside, hlast, hzero⟩ := not_noOverlap old new h
  have hpos : 0 < old.last := by
    have hnonneg := hold.2.1
    omega
  have hrows := Span.rows_of_countable old hold hpos
  have hrows' := Span.rows_of_countable new hnew (by omega)
  by_cases hne : old = new
  · subst hne
    simp [events, edits_between_self, Event.countAll]
  · have htrim := countAll_trimTo old new rows n hfirst
    have hgrow := countAll_growTo old new rows (n - (new.first - old.first)) hinside hlast
    rw [events, edits_between_of_overlap old new hne h, List.filterMap_append,
      Event.countAll_append, htrim, Option.bind_some, hgrow]
    congr 1
    · simp only [eq_iff_iff]
      omega
    · congr 1
      omega

/-- A reset tells the count outright. -/
theorem countAll_of_noOverlap (old new : Span) (rows : Nat) (n : Int) (hne : old ≠ new)
    (h : NoOverlap old new) :
    Event.countAll rows n (between old new).events = some (rows : Int) := by
  rw [events, edits_between_of_noOverlap old new hne h]
  rfl

/-- Who has the rows from before a move has those from after it. -/
theorem countAll_settled (old new : Span) (hold : old.Countable) (hnew : new.Countable) :
    Event.countAll new.rows old.rows (between old new).events = some (new.rows : Int) := by
  by_cases hne : old = new
  · subst hne
    rw [events, edits_between_self]
    rfl
  · by_cases h : NoOverlap old new
    · exact countAll_of_noOverlap old new new.rows _ hne h
    · rw [countAll_of_overlap old new new.rows _ hold hnew h, if_pos (Or.inl rfl)]
      congr 1
      omega

/-- Who has the rows from after a move already is right only by a reset or by chance. -/
theorem countAll_ahead (old new : Span) (hold : old.Countable) (hnew : new.Countable) :
    Event.countAll new.rows new.rows (between old new).events = some (new.rows : Int) ↔
      NoOverlap old new ∨ old.rows = new.rows := by
  by_cases h : NoOverlap old new
  · simp only [h, true_or, iff_true]
    by_cases hne : old = new
    · rw [hne]
      exact countAll_settled new new hnew hnew
    · exact countAll_of_noOverlap old new new.rows _ hne h
  · rw [countAll_of_overlap old new new.rows _ hold hnew h]
    simp only [h, false_or]
    constructor
    · intro hcount
      split at hcount
      · have hsum := Option.some.inj hcount
        omega
      · exact nomatch hcount
    · intro hsame
      rw [hsame, if_pos (Or.inl rfl), Int.sub_self, Int.add_zero]

end Plan

namespace Table

variable {ε : Type}

/-- The lines of an announcement count as the announcement does. -/
theorem tell_counts (t : Table) (source : Source ε) (e : Event) (hspan : t.span.Numbered)
    (hsource : source.Answers) :
    ∃ lines cache, t.tell source e = ⟨lines, .ok (t.recached cache)⟩ ∧
      ∀ n, WatchLine.countAll n lines = e.count? t.rows n := by
  cases e with
  | reset => exact ⟨_, _, rfl, fun n => rfl⟩
  | removed start count => exact ⟨_, _, rfl, fun n => rfl⟩
  | inserted start count =>
    obtain ⟨rows, cache, htell⟩ := t.tellRows_ok source start count hspan hsource
    refine ⟨.inserted count start :: rows.map .row, cache, ?_, ?_⟩
    · simp only [tell, Told.andThen, htell, List.cons_append, List.nil_append]
    · intro n
      rw [← List.singleton_append, WatchLine.countAll_append]
      simp only [WatchLine.countAll_rows, Option.bind_fun_some]
      exact Option.bind_fun_some _
  | changed first last => exact ⟨_, _, rfl, fun n => rfl⟩

/-- The lines of announcements count rows as the announcements do. -/
theorem tellAll_counts (t : Table) (source : Source ε) (events : List Event)
    (hspan : t.span.Numbered) (hsource : source.Answers) :
    ∃ lines cache, t.tellAll source events = ⟨lines, .ok (t.recached cache)⟩ ∧
      ∀ n, WatchLine.countAll n lines = Event.countAll t.rows n events := by
  induction events generalizing t with
  | nil => exact ⟨[], t.window.cache, rfl, fun n => rfl⟩
  | cons e rest ih =>
    obtain ⟨lines, cache, htell, hcount⟩ := t.tell_counts source e hspan hsource
    obtain ⟨more, cache', hrest, hcount'⟩ := ih (t.recached cache) hspan
    refine ⟨lines ++ more, cache', ?_, ?_⟩
    · simp only [tellAll, htell, Told.andThen, hrest, recached_recached]
    · intro n
      rw [WatchLine.countAll_append, hcount, ← List.singleton_append, Event.countAll_append,
        Event.countAll_singleton]
      simp only [hcount', recached_rows]

/-- A look tells what was pending and what the look itself announces, all as the table is
after it. -/
theorem poll_eq (t : Table) (log : Log) :
    ∃ t' : Table, t.poll log.source =
        t'.tellAll log.source (t.pending ++ (Plan.between t.span log.span).events) ∧
      t'.span = log.span ∧ t'.pending = [] ∧ t'.window = t.window.observe log.span := by
  have hpending := t.observe_pending log.span
  rw [Notice.ofEdits_event] at hpending
  have hwindow := t.observe_window log.span
  refine ⟨(t.observe log.span).takeEvents.2, ?_, ?_, rfl, hwindow⟩
  · rw [Plan.events, ← hpending]
    rfl
  · change (t.observe log.span).window.span = log.span
    rw [hwindow, Window.observe_span]

/-- The lines of a look count as its announcements do. -/
theorem poll_counts (t : Table) (log : Log) (hlog : log.Unbroken) (hauthored : log.Authored) :
    ∃ lines t', t.poll log.source = ⟨lines, .ok t'⟩ ∧ t'.span = log.span ∧ t'.pending = [] ∧
      ∀ n, WatchLine.countAll n lines =
        Event.countAll log.span.rows n (t.pending ++ (Plan.between t.span log.span).events) := by
  obtain ⟨t', hpoll, hspan, hpending, -⟩ := t.poll_eq log
  have hrows : t'.rows = log.span.rows := congrArg Span.rows hspan
  have hnumbered : t'.span.Numbered := by
    rw [hspan]
    exact log.span_numbered hlog
  obtain ⟨lines, cache, htell, hcount⟩ :=
    t'.tellAll_counts log.source _ hnumbered (log.source_answers hauthored)
  refine ⟨lines, _, hpoll.trans htell, hspan, hpending, ?_⟩
  intro n
  rw [hcount, hrows]

/-- Where nothing is pending, the count goes from the rows before a look to those after. -/
theorem poll_settled (t : Table) (log : Log) (hlog : log.Unbroken) (hauthored : log.Authored)
    (hpending : t.pending = []) (hspan : t.span.Countable) :
    ∃ lines t', t.poll log.source = ⟨lines, .ok t'⟩ ∧ t'.span = log.span ∧ t'.pending = [] ∧
      WatchLine.countAll t.span.rows lines = some (log.span.rows : Int) := by
  obtain ⟨lines, t', hpoll, hspan', hpending', hcount⟩ := t.poll_counts log hlog hauthored
  refine ⟨lines, t', hpoll, hspan', hpending', ?_⟩
  rw [hcount, hpending, List.nil_append]
  exact Plan.countAll_settled t.span log.span hspan (log.span_countable hlog)

theorem pollAll_append (t : Table) (polls more : List (Source ε)) :
    t.pollAll (polls ++ more) = (t.pollAll polls).andThen fun t => t.pollAll more := by
  induction polls generalizing t with
  | nil => rfl
  | cons source rest ih => simp only [List.cons_append, pollAll, ih, Told.andThen_assoc]

/-- A log that can be read is loaded, and the announcement of that waits to be told. -/
theorem load_ok (hosts : HostNames) (resolve : Bool) (log : Log) :
    ∃ t, load hosts resolve log.source = .ok t ∧ t.span = log.span ∧
      t.pending = (Plan.between Span.empty log.span).events := by
  refine ⟨(Table.new hosts resolve).observe log.span, rfl, ?_, ?_⟩
  · rw [span, observe_window, Window.observe_span]
  · rw [observe_pending, Notice.ofEdits_event]
    rfl

/-- Loading is told at the first look. So the count there starts from the rows of that look,
unless there was nothing to load. -/
theorem countAll_first (old new : Span) (hold : old.Countable) (hnew : new.Countable) :
    Event.countAll new.rows old.rows
        ((Plan.between Span.empty old).events ++ (Plan.between old new).events) =
      some (new.rows : Int) ↔ Plan.NoOverlap old new ∨ old.rows = new.rows := by
  have hempty : ∀ s, Plan.NoOverlap Span.empty s := fun s => Or.inr (Or.inr (Or.inr rfl))
  by_cases hne : Span.empty = old
  · have hnone : (Plan.between Span.empty old).events = [] := by
      rw [← hne, Plan.events, Plan.edits_between_self, List.filterMap_nil]
    rw [hnone, List.nil_append]
    exact iff_of_true (Plan.countAll_settled old new hold hnew) (Or.inl (hne ▸ hempty new))
  · rw [Event.countAll_append, Plan.countAll_of_noOverlap Span.empty old _ _ hne (hempty old),
      Option.bind_some]
    exact Plan.countAll_ahead old new hold hnew

end Table

namespace Log

def looks (log : Log) : List (List Write) → List (Source DatabaseFault)
  | [] => []
  | writes :: rest => (log.afterAll writes).source :: (log.afterAll writes).looks rest

/-- A log is followed while it is written to: first before it is looked at for the first
time, then before each further look. -/
def watched (hosts : HostNames) (resolve : Bool) (first : List Write)
    (later : List (List Write)) : Told DatabaseFault :=
  Table.watch hosts resolve (run first).source ((run first).looks later)

theorem looks_append (log : Log) (polls more : List (List Write)) :
    log.looks (polls ++ more) = log.looks polls ++ (log.afterAll polls.flatten).looks more := by
  induction polls generalizing log with
  | nil => rfl
  | cons writes rest ih =>
    rw [List.cons_append, looks, looks, ih, List.cons_append, List.flatten_cons, afterAll,
      afterAll, afterAll, List.foldl_append]

/-- What was told up to a look stays told, and is gone on from. -/
theorem watched_append (hosts : HostNames) (resolve : Bool) (first : List Write)
    (polls more : List (List Write)) :
    watched hosts resolve first (polls ++ more) =
      (watched hosts resolve first polls).andThen fun t =>
        t.pollAll ((run (first ++ polls.flatten)).looks more) := by
  obtain ⟨t, hload, -, -⟩ := Table.load_ok hosts resolve (run first)
  simp only [watched, Table.watch, hload, Table.follow, looks_append, Table.pollAll_append,
    Told.andThen_assoc, run_append]

/-- From a table with nothing left to tell every further look leaves the count right. -/
theorem pollAll_looks (t : Table) (before : List Write) (later : List (List Write))
    (hpending : t.pending = []) (hspan : t.span = (run before).span) :
    ∃ lines t', t.pollAll ((run before).looks later) = ⟨lines, .ok t'⟩ ∧
      t'.span = (run (before ++ later.flatten)).span ∧
      WatchLine.countAll (run before).span.rows lines = some (t'.span.rows : Int) := by
  induction later generalizing t before with
  | nil =>
    refine ⟨[], t, rfl, ?_, ?_⟩
    · rw [hspan, List.flatten_nil, List.append_nil]
    · rw [hspan]
      rfl
  | cons writes rest ih =>
    have hcountable : t.span.Countable := by
      rw [hspan]
      exact span_countable _ (run_unbroken before)
    obtain ⟨lines, t', hpoll, hspan', hpending', hcount⟩ :=
      t.poll_settled (run (before ++ writes)) (run_unbroken _) (run_authored _) hpending
        hcountable
    obtain ⟨more, t'', hrest, hspan'', hcount'⟩ := ih t' (before ++ writes) hpending' hspan'
    refine ⟨lines ++ more, t'', ?_, ?_, ?_⟩
    · rw [looks, ← run_append]
      simp only [Table.pollAll, hpoll, Told.andThen, hrest]
    · rw [hspan'', List.flatten_cons, List.append_assoc]
    · rw [WatchLine.countAll_append, ← hspan, hcount, Option.bind_some, hcount']

/-- At the first further look the count is that of the rows under this condition only. -/
theorem watched_one (hosts : HostNames) (resolve : Bool) (first writes : List Write) :
    ∃ lines t, watched hosts resolve first [writes] = ⟨lines, .ok t⟩ ∧
      t.span = (run (first ++ writes)).span ∧ t.pending = [] ∧
      (WatchLine.countAll 0 lines = some ((run (first ++ writes)).span.rows : Int) ↔
        Plan.NoOverlap (run first).span (run (first ++ writes)).span ∨
          (run first).span.rows = (run (first ++ writes)).span.rows) := by
  obtain ⟨t, hload, hspan, hpending⟩ := Table.load_ok hosts resolve (run first)
  obtain ⟨lines, t', hpoll, hspan', hpending', hcount⟩ :=
    t.poll_counts (run (first ++ writes)) (run_unbroken _) (run_authored _)
  refine ⟨.window t.span t.rows :: lines, t', ?_, hspan', hpending', ?_⟩
  · rw [watched, Table.watch, hload, looks, looks, ← run_append]
    simp only [Table.follow, Table.pollAll, hpoll, Told.andThen, List.cons_append,
      List.nil_append, List.append_nil, Table.windowLine]
  · rw [← Table.countAll_first _ _ (span_countable _ (run_unbroken first))
      (span_countable _ (run_unbroken (first ++ writes))), ← hpending, ← hspan, ← hcount]
    rfl

/-- Before any look the count is right. -/
theorem watched_nil_counts (hosts : HostNames) (resolve : Bool) (first : List Write) :
    (watched hosts resolve first []).Counts (run first).span := by
  obtain ⟨t, hload, hspan, -⟩ := Table.load_ok hosts resolve (run first)
  have hwatched : watched hosts resolve first [] = ⟨[.window t.span t.rows], .ok t⟩ := by
    rw [watched, Table.watch, hload]
    rfl
  refine ⟨t, by rw [hwatched], hspan, ?_⟩
  rw [hwatched, ← hspan]
  rfl

/-- Where a log is followed while it is written to, the count of the lines is right after
every look exactly if the first further look finds too little left to go on from, or as many
rows as there were at the loading. -/
theorem watched_counts_iff (hosts : HostNames) (resolve : Bool) (first : List Write)
    (later : List (List Write)) :
    (∀ polls, polls <+: later →
        (watched hosts resolve first polls).Counts (run (first ++ polls.flatten)).span) ↔
      ∀ writes rest, later = writes :: rest →
        Plan.NoOverlap (run first).span (run (first ++ writes)).span ∨
          (run first).span.rows = (run (first ++ writes)).span.rows := by
  constructor
  · intro h writes rest hlater
    obtain ⟨lines, t, hwatched, -, -, hiff⟩ := watched_one hosts resolve first writes
    obtain ⟨-, -, -, hcount⟩ := h [writes] (hlater ▸ List.prefix_append [writes] rest)
    rw [hwatched, List.flatten_singleton] at hcount
    exact hiff.mp hcount
  · intro h polls hpolls
    cases polls with
    | nil =>
      rw [List.flatten_nil, List.append_nil]
      exact watched_nil_counts hosts resolve first
    | cons writes rest =>
      obtain ⟨more, hlater⟩ := hpolls
      obtain ⟨lines, t, hwatched, hspan, hpending, hiff⟩ :=
        watched_one hosts resolve first writes
      have hfirst := hiff.mpr (h writes (rest ++ more) hlater.symm)
      -- Nothing is pending after this look, so no later one can go wrong.
      obtain ⟨lines', t', hrest, hspan', hcount⟩ :=
        pollAll_looks t (first ++ writes) rest hpending hspan
      have hall := watched_append hosts resolve first [writes] rest
      simp only [List.singleton_append, List.flatten_singleton, hwatched, Told.andThen,
        hrest] at hall
      have hflat : first ++ (writes :: rest).flatten = first ++ writes ++ rest.flatten := by
        rw [List.flatten_cons, List.append_assoc]
      refine ⟨t', by rw [hall], by rw [hspan', hflat], ?_⟩
      rw [hall, WatchLine.countAll_append, hfirst, Option.bind_some, hcount, hspan', hflat]

/-- A connection comes in between the loading of two and the first further look. The lines
then have the three rows of that look in the reset already, and one more comes in at row 2. -/
theorem watched_counts_twice :
    let c := Seed.connection [1] 0 false 0
    let first : List Write := [.register "/usr/bin/curl", .append c, .append c]
    let told := watched HostNames.empty false first [[.append c]]
    told.lines.take 3 = [.window ⟨1, 2⟩ 2, .reset ⟨1, 3⟩ 3, .inserted 1 2] ∧
      WatchLine.countAll 0 told.lines = none := by
  decide

end Log

end ConnectionLog
