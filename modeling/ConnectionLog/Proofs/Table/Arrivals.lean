import ConnectionLog.Proofs.Table.Counting
import ConnectionLog.Proofs.Table.Lines

/-!
Rows that come in while a log is followed. A look that finds the table trimmed and grown
tells of the new rows after the old ones are gone, and prints them where they are by then,
each of them once. So between two resets the identifiers that are printed go up by one,
and they are those that the log gave out meanwhile.
-/
namespace ConnectionLog

def Event.Quiet (e : Event) : Prop := ∀ start count, e ≠ .inserted start count

namespace WatchLine

/-- A line that neither is about rows that came in nor is one of them. -/
def IsNote : WatchLine → Prop
  | .inserted .. | .row _ => False
  | _ => True

/-- The lines about rows that came in. There are none if no row did. -/
def arrivals (start : Nat) (rows : List RowLine) : List WatchLine :=
  if rows = [] then [] else .inserted rows.length start :: rows.map .row

def rowId? : WatchLine → Option Int
  | .row line => some line.id
  | _ => none

def rowIds (lines : List WatchLine) : List Int := lines.filterMap rowId?

theorem rowIds_append (lines more : List WatchLine) :
    rowIds (lines ++ more) = rowIds lines ++ rowIds more := List.filterMap_append

theorem rowIds_of_notes (lines : List WatchLine) (h : ∀ line ∈ lines, line.IsNote) :
    rowIds lines = [] := by
  rw [rowIds, List.filterMap_eq_nil_iff]
  intro line hline
  have hnote := h line hline
  cases line with
  | row line => exact hnote.elim
  | _ => rfl

theorem rowIds_arrivals (start : Nat) (rows : List RowLine) :
    rowIds (arrivals start rows) = rows.map (·.id) := by
  have hrows : rowIds (rows.map .row) = rows.map (·.id) := by
    rw [rowIds, List.filterMap_map]
    change rows.filterMap (some ∘ RowLine.id) = _
    rw [List.filterMap_eq_map]
  unfold arrivals
  split
  · rename_i hnil
    rw [hnil]
    rfl
  · exact hrows

end WatchLine

namespace Plan

theorem trimTo_quiet (old new : Span) :
    ∀ e ∈ (trimTo old new).toList.filterMap Edit.event?, e.Quiet := by
  intro e he
  by_cases htrim : old.first < new.first
  · rw [trimTo_of_lt old new htrim] at he
    rw [List.mem_singleton.mp he]
    exact nofun
  · rw [trimTo_of_not_lt old new htrim] at he
    exact nomatch he

end Plan

namespace Table

variable {ε : Type}

def note (t : Table) : Event → WatchLine
  | .reset => .reset t.span t.rows
  | .removed start count => .removed count start
  | .inserted start count => .inserted count start
  | .changed first last => .changed first last

theorem note_isNote (t : Table) (e : Event) (h : e.Quiet) : (t.note e).IsNote := by
  cases e with
  | inserted start count => exact absurd rfl (h start count)
  | _ => trivial

theorem tellAll_append (t : Table) (source : Source ε) (events more : List Event) :
    t.tellAll source (events ++ more) =
      (t.tellAll source events).andThen fun t => t.tellAll source more := by
  induction events generalizing t with
  | nil => rfl
  | cons e rest ih => simp only [List.cons_append, tellAll, ih, Told.andThen_assoc]

/-- What brings no row is told in a line each, and leaves the table as it is. -/
theorem tellAll_of_quiet (t : Table) (source : Source ε) (events : List Event)
    (h : ∀ e ∈ events, e.Quiet) : t.tellAll source events = ⟨events.map t.note, .ok t⟩ := by
  induction events with
  | nil => rfl
  | cons e rest ih =>
    have htell : t.tell source e = ⟨[t.note e], .ok t⟩ := by
      cases e with
      | inserted start count => exact absurd rfl (h _ List.mem_cons_self start count)
      | _ => rfl
    have hrest := ih fun e he => h e (List.mem_cons_of_mem _ he)
    simp only [tellAll, htell, Told.andThen, hrest, List.map_cons, List.singleton_append]

/-- The rows that a move brings in are printed, all of them, after their line. -/
theorem tellAll_growTo (t : Table) (source : Source ε) (old : Span)
    (hinside : old.last < t.span.last → t.span.first < old.last)
    (hcurrent : old.last < t.span.last → t.window.Current source)
    (hcountable : t.span.Countable) (hlast : 0 ≤ old.last) (hspan : t.span.Numbered)
    (hsource : source.Answers) :
    ∃ rows cache,
      t.tellAll source ((Plan.growTo old t.span).toList.filterMap Edit.event?) =
        ⟨WatchLine.arrivals (t.rows - rows.length) rows, .ok (t.recached cache)⟩ ∧
      rows.map (·.id) = Span.idsFrom (old.last + 1) (t.span.last - old.last).toNat ∧
      ∀ line ∈ rows, line.Shows t.view source := by
  by_cases hgrow : old.last < t.span.last
  · have hfirst := hinside hgrow
    have hadded : (t.span.last - old.last).natAbs = (t.span.last - old.last).toNat := by omega
    -- The new rows end with the table, so none is cut off.
    have hrows := Span.rows_of_countable t.span hcountable (by omega)
    have hend : (old.last - t.span.first).natAbs + 1 + (t.span.last - old.last).toNat =
        t.rows := by
      change _ = t.span.rows
      omega
    have hstart : t.span.first + (((old.last - t.span.first).natAbs + 1 : Nat) : Int) =
        old.last + 1 := by omega
    obtain ⟨rows, cache, htell, hids, hlines⟩ :=
      t.tellRows_of_current source _ _ (Nat.le_of_eq hend) hspan hsource (hcurrent hgrow)
    rw [hstart] at hids
    refine ⟨rows, cache, ?_, hids, hlines⟩
    have hlength := congrArg List.length hids
    rw [List.length_map, Span.length_idsFrom] at hlength
    have hne : rows ≠ [] := by
      rw [← List.length_pos_iff_ne_nil]
      omega
    rw [Plan.growTo_of_lt old t.span hgrow, hadded, WatchLine.arrivals, if_neg hne, hlength,
      ← hend, Nat.add_sub_cancel]
    simp only [Option.toList_some, List.filterMap_cons, Edit.event?, List.filterMap_nil,
      tellAll, tell, htell, Told.andThen, List.append_nil, List.singleton_append]
  · refine ⟨[], t.window.cache, ?_, ?_, List.forall_mem_nil _⟩
    · rw [Plan.growTo_of_not_lt old t.span hgrow]
      rfl
    · rw [Int.toNat_eq_zero.mpr (by omega)]
      rfl

/-- A look that finds the table trimmed and grown tells notes, and then the rows that came
in. -/
theorem poll_of_incremental (t : Table) (log : Log) (hlog : log.Unbroken)
    (hauthored : log.Authored) (hcountable : t.span.Countable)
    (hpending : ∀ e ∈ t.pending, e.Quiet)
    (hplan : (Plan.between t.span log.span).Incremental) :
    ∃ (notes : List WatchLine) (rows : List RowLine) (t' : Table), t.poll log.source =
        ⟨notes ++ WatchLine.arrivals (t'.rows - rows.length) rows, .ok t'⟩ ∧
      (∀ line ∈ notes, line.IsNote) ∧
      rows.map (·.id) = Span.idsFrom (t.span.last + 1) (log.span.last - t.span.last).toNat ∧
      (∀ line ∈ rows, line.Shows t'.view log.source) ∧
      t'.span = log.span ∧ t'.pending = [] := by
  obtain ⟨t', hpoll, hspan, hempty, hwindow⟩ := t.poll_eq log
  have hevents : t.pending ++ (Plan.between t.span log.span).events =
      (t.pending ++ (Plan.trimTo t.span log.span).toList.filterMap Edit.event?) ++
        (Plan.growTo t.span log.span).toList.filterMap Edit.event? := by
    rw [Plan.events, Plan.edits_of_incremental _ _ hplan, List.filterMap_append,
      List.append_assoc]
  have hquiet : ∀ e ∈ t.pending ++ (Plan.trimTo t.span log.span).toList.filterMap Edit.event?,
      e.Quiet := by
    intro e he
    rcases List.mem_append.mp he with he | he
    · exact hpending e he
    · exact Plan.trimTo_quiet t.span log.span e he
  have hmoved : t.span.last < log.span.last → t.span ≠ log.span := by
    intro hlt heq
    rw [heq] at hlt
    exact Int.lt_irrefl _ hlt
  have hinside : t.span.last < log.span.last → log.span.first < t.span.last := by
    intro hlt
    have hoverlap := ((Plan.incremental_iff _ _).mp hplan).resolve_left (hmoved hlt)
    exact (Plan.not_noOverlap _ _ hoverlap).2.1
  -- Rows come in only if the span has changed, and then nothing is cached any more.
  have hcurrent : t.span.last < log.span.last → t'.window.Current log.source := by
    intro hlt e he
    rw [hwindow, Window.observe_cache _ _ (hmoved hlt).symm] at he
    cases he
  rw [← hspan] at hinside hcurrent
  obtain ⟨rows, cache, htell, hids, hlines⟩ :=
    t'.tellAll_growTo log.source t.span hinside hcurrent (hspan ▸ log.span_countable hlog)
      hcountable.2.1 (hspan ▸ log.span_numbered hlog) (log.source_answers hauthored)
  rw [hspan] at hids htell
  refine ⟨(t.pending ++ (Plan.trimTo t.span log.span).toList.filterMap Edit.event?).map t'.note,
    rows, t'.recached cache, ?_, ?_, hids, hlines, hspan, hempty⟩
  · rw [hpoll, hevents, tellAll_append, tellAll_of_quiet _ _ _ hquiet]
    simp only [Told.andThen, htell, recached_rows]
  · intro line hline
    obtain ⟨e, he, rfl⟩ := List.mem_map.mp hline
    exact note_isNote _ e (hquiet e he)

end Table

namespace Log

def given (log : Log) : List Write → List Int
  | [] => []
  | w :: rest =>
    match log.write w with
    | .ok (outcome, log) => assigned w outcome ++ log.given rest
    | .error _ => log.given rest

/-- They go on by one from the largest that was ever used. -/
theorem given_eq (log : Log) (writes : List Write) :
    log.given writes =
      Span.idsFrom ((log.lastId : Int) + 1) ((log.afterAll writes).lastId - log.lastId) := by
  induction writes generalizing log with
  | nil =>
    rw [afterAll, List.foldl_nil, Nat.sub_self]
    rfl
  | cons w rest ih =>
    have hafter : log.afterAll (w :: rest) = (log.after w).afterAll rest := rfl
    rw [given, hafter, after]
    cases hw : log.write w with
    | error fault => exact ih log
    | ok result =>
      obtain ⟨outcome, log'⟩ := result
      simp only
      rw [ih log']
      have hlast := (afterAll_bounds log' rest).2
      rcases write_cases log log' w outcome hw with
        ⟨path, rfl, rfl, rfl⟩ | ⟨c, rfl, -, rfl, rfl⟩ | ⟨before, rfl, rfl, rfl⟩ | ⟨rfl, rfl, rfl⟩
      · rw [register_lastId]
        rfl
      · rw [← Nat.sub_add_cancel (Nat.sub_pos_of_lt hlast), Span.idsFrom_succ]
        rfl
      · rfl
      · rfl

def Incremental (log : Log) : List (List Write) → Prop
  | [] => True
  | writes :: rest =>
    (Plan.between log.span (log.afterAll writes).span).Incremental ∧
      (log.afterAll writes).Incremental rest

/-- Without a reset the last identifier never moves down. -/
theorem last_le_of_incremental (log : Log) (stretch : List (List Write))
    (h : log.Incremental stretch) : log.span.last ≤ (log.afterAll stretch.flatten).span.last := by
  induction stretch generalizing log with
  | nil => exact Int.le_refl _
  | cons writes rest ih =>
    have hfirst := Plan.last_le_of_incremental _ _ h.1
    have hrest := ih (log.afterAll writes) h.2
    rw [List.flatten_cons, afterAll, List.foldl_append]
    exact Int.le_trans hfirst hrest

/-- Where the log holds something, what comes in over such a stretch is what the log gives
out. -/
theorem given_of_incremental (log : Log) (stretch : List (List Write)) (hlog : log.Unbroken)
    (hne : log.entries ≠ []) (h : log.Incremental stretch) :
    log.given stretch.flatten = Span.idsFrom (log.span.last + 1)
      ((log.afterAll stretch.flatten).span.last - log.span.last).toNat := by
  have hlater := afterAll_unbroken log stretch.flatten hlog
  have hle := last_le_of_incremental log stretch h
  have hpos := one_le_low log hlog
  have hlow := (low_le_lastId_iff log).mpr hne
  have hspan := span_of_ne_nil log hlog hne
  rw [hspan] at hle ⊢
  have hne' : (log.afterAll stretch.flatten).entries ≠ [] := by
    intro hnil
    rw [span_of_nil _ hnil] at hle
    simp only [Span.empty] at hle
    omega
  rw [given_eq, span_of_ne_nil _ hlater hne']
  congr 1
  simp only
  omega

theorem events_of_load_quiet (log : Log) :
    ∀ e ∈ (Plan.between Span.empty log.span).events, e.Quiet := by
  intro e he
  by_cases hne : Span.empty = log.span
  · rw [← hne, Plan.events, Plan.edits_between_self, List.filterMap_nil] at he
    cases he
  · rw [Plan.events, Plan.edits_between_of_noOverlap _ _ hne (Or.inr (Or.inr (Or.inr rfl)))] at he
    rw [List.mem_singleton.mp he]
    intro start count hinserted
    cases hinserted

theorem flatten_append_singleton (first : List Write) (polls : List (List Write))
    (writes : List Write) :
    first ++ (polls ++ [writes]).flatten = first ++ polls.flatten ++ writes := by
  rw [List.flatten_append, List.flatten_singleton, List.append_assoc]

/-- One more look tells more behind what was told. -/
theorem watched_append_singleton (hosts : HostNames) (resolve : Bool) (first : List Write)
    (polls : List (List Write)) (writes : List Write) (lines more : List WatchLine)
    (t t' : Table) (h : watched hosts resolve first polls = ⟨lines, .ok t⟩)
    (hpoll : t.poll (run (first ++ polls.flatten ++ writes)).source = ⟨more, .ok t'⟩) :
    watched hosts resolve first (polls ++ [writes]) = ⟨lines ++ more, .ok t'⟩ := by
  rw [run_append] at hpoll
  rw [watched_append, h]
  simp only [Told.andThen, looks, Table.pollAll, hpoll, List.append_nil]

/-- Following a log does not end by itself, and no rows are left to be announced. -/
theorem watched_ok (hosts : HostNames) (resolve : Bool) (first : List Write)
    (polls : List (List Write)) :
    ∃ lines t, watched hosts resolve first polls = ⟨lines, .ok t⟩ ∧
      t.span = (run (first ++ polls.flatten)).span ∧ ∀ e ∈ t.pending, e.Quiet := by
  induction polls using List.reverseRecOn with
  | nil =>
    obtain ⟨t, hload, hspan, hpending⟩ := Table.load_ok hosts resolve (run first)
    refine ⟨[t.windowLine], t, ?_, ?_, ?_⟩
    · rw [watched, Table.watch, hload]
      rfl
    · rw [hspan, List.flatten_nil, List.append_nil]
    · rw [hpending]
      exact events_of_load_quiet (run first)
  | append_singleton polls writes ih =>
    obtain ⟨lines, t, htold, -, -⟩ := ih
    obtain ⟨more, t', hpoll, hspan, hpending, -⟩ :=
      t.poll_counts (run (first ++ polls.flatten ++ writes)) (run_unbroken _) (run_authored _)
    refine ⟨lines ++ more, t',
      watched_append_singleton hosts resolve first polls writes lines more t t' htold hpoll,
      ?_, ?_⟩
    · rw [hspan, flatten_append_singleton]
    · rw [hpending]
      exact List.forall_mem_nil _

/-- What a further look tells, if it finds the table trimmed and grown. -/
theorem watched_next (hosts : HostNames) (resolve : Bool) (first : List Write)
    (polls : List (List Write)) (writes : List Write) (lines : List WatchLine) (t : Table)
    (h : watched hosts resolve first polls = ⟨lines, .ok t⟩)
    (hspan : t.span = (run (first ++ polls.flatten)).span) (hpending : ∀ e ∈ t.pending, e.Quiet)
    (hplan : (Plan.between t.span (run (first ++ polls.flatten ++ writes)).span).Incremental) :
    ∃ notes rows t', watched hosts resolve first (polls ++ [writes]) =
        ⟨lines ++ (notes ++ WatchLine.arrivals (t'.rows - rows.length) rows), .ok t'⟩ ∧
      (∀ line ∈ notes, line.IsNote) ∧
      rows.map (·.id) = Span.idsFrom (t.span.last + 1) (t'.span.last - t.span.last).toNat ∧
      (∀ line ∈ rows, line.Shows t'.view (run (first ++ polls.flatten ++ writes)).source) ∧
      t'.span = (run (first ++ polls.flatten ++ writes)).span ∧ t'.pending = [] := by
  have hcountable : t.span.Countable := by
    rw [hspan]
    exact span_countable _ (run_unbroken _)
  obtain ⟨notes, rows, t', hpoll, hnotes, hids, hlines, hspan', hpending'⟩ :=
    t.poll_of_incremental (run (first ++ polls.flatten ++ writes)) (run_unbroken _)
      (run_authored _) hcountable hpending hplan
  rw [← hspan'] at hids
  exact ⟨notes, rows, t', watched_append_singleton hosts resolve first polls writes lines _ t t'
    h hpoll, hnotes, hids, hlines, hspan', hpending'⟩

/-- The identifiers that are printed over a stretch without a reset: the induction is on the
stretch, and what was told before it stays told. -/
theorem watched_stretch (hosts : HostNames) (resolve : Bool) (first : List Write)
    (polls stretch : List (List Write)) (lines : List WatchLine) (t : Table)
    (h : watched hosts resolve first polls = ⟨lines, .ok t⟩)
    (hspan : t.span = (run (first ++ polls.flatten)).span) (hpending : ∀ e ∈ t.pending, e.Quiet)
    (hstretch : (run (first ++ polls.flatten)).Incremental stretch) :
    ∃ more t', watched hosts resolve first (polls ++ stretch) = ⟨lines ++ more, .ok t'⟩ ∧
      t'.span = ((run (first ++ polls.flatten)).afterAll stretch.flatten).span ∧
      WatchLine.rowIds more =
        Span.idsFrom (t.span.last + 1) (t'.span.last - t.span.last).toNat := by
  induction stretch generalizing polls lines t with
  | nil =>
    refine ⟨[], t, ?_, hspan, ?_⟩
    · rw [List.append_nil, List.append_nil, h]
    · rw [Int.sub_self]
      rfl
  | cons writes rest ih =>
    obtain ⟨hplan, hrest⟩ := hstretch
    rw [← run_append, ← hspan] at hplan
    obtain ⟨notes, rows, t', htold, hnotes, hids, -, hspan', hpending'⟩ :=
      watched_next hosts resolve first polls writes lines t h hspan hpending hplan
    have hle := Plan.last_le_of_incremental _ _ hplan
    rw [← hspan'] at hle
    rw [← flatten_append_singleton] at hspan'
    rw [← run_append, ← flatten_append_singleton] at hrest
    have hle' := last_le_of_incremental _ rest hrest
    obtain ⟨more, t'', hmore, hspan'', hids'⟩ :=
      ih (polls ++ [writes]) _ t' htold hspan' (hpending' ▸ List.forall_mem_nil _) hrest
    rw [← hspan', ← hspan''] at hle'
    refine ⟨notes ++ WatchLine.arrivals (t'.rows - rows.length) rows ++ more, t'', ?_, ?_, ?_⟩
    · rw [List.append_cons, hmore, List.append_assoc]
    · rw [hspan'', flatten_append_singleton, run_append, List.flatten_cons, afterAll, afterAll,
        afterAll, List.foldl_append]
    · rw [WatchLine.rowIds_append, WatchLine.rowIds_append, WatchLine.rowIds_of_notes notes hnotes,
        List.nil_append, WatchLine.rowIds_arrivals, hids, hids']
      exact Span.idsFrom_append_idsFrom _ _ _ hle hle'

end Log

end ConnectionLog
