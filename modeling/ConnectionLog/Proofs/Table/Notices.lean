import ConnectionLog.Proofs.Table.Actions

/-!
What the announcements of a table tell. A view that starts with no rows and does
what each announcement says always can, and has after each of them the identifiers
of the span that the window has by then. Taking announcements loses none of them.
-/
namespace ConnectionLog

structure Notice where
  event : Event
  span : Span
deriving DecidableEq

namespace Notice

/-- What a view makes of its identifiers, if it can do what the announcement says.
Only a reset has to be told the new ones. -/
def replay (ids : List Int) (n : Notice) : Option (List Int) :=
  match n.event with
  | .reset => some n.span.ids
  | .removed start count =>
    if start = 0 ∧ count ≤ ids.length then some (ids.drop count) else none
  | .inserted start count =>
    match ids.getLast? with
    | some last =>
      if start = ids.length then some (ids ++ Span.idsFrom (last + 1) count) else none
    | none => none
  | .changed first last => if first = 0 ∧ last + 1 = ids.length then some ids else none

def replayAll : List Int → List Notice → Option (List Int)
  | ids, [] => some ids
  | ids, n :: rest => (n.replay ids).bind fun ids => replayAll ids rest

def ofEdits (s : Span) : List Edit → List Notice
  | [] => []
  | e :: rest =>
    (e.event?.map fun event => ⟨event, s.apply e⟩).toList ++ ofEdits (s.apply e) rest

/-- Each announcement leads a view from the rows of one span to those of the next. -/
def Leads : Span → List Notice → Span → Prop
  | s, [], s' => s = s'
  | s, n :: rest, s' => n.replay s.ids = some n.span.ids ∧ Leads n.span rest s'

theorem ofEdits_event (s : Span) (edits : List Edit) :
    (ofEdits s edits).map (·.event) = edits.filterMap Edit.event? := by
  induction edits generalizing s with
  | nil => rfl
  | cons e rest ih =>
    rw [ofEdits, List.map_append, ih]
    cases h : e.event? with
    | none => simp [h]
    | some event => simp [h]

theorem leads_append (s mid s' : Span) (ns more : List Notice) (h : Leads s ns mid)
    (hmore : Leads mid more s') : Leads s (ns ++ more) s' := by
  induction ns generalizing s with
  | nil =>
    cases h
    exact hmore
  | cons n rest ih => exact ⟨h.1, ih n.span h.2⟩

/-- A view that is led from rows to rows has the right ones in the end. -/
theorem replayAll_of_leads (s s' : Span) (ns : List Notice) (h : Leads s ns s') :
    replayAll s.ids ns = some s'.ids := by
  induction ns generalizing s with
  | nil =>
    cases h
    rfl
  | cons n rest ih =>
    rw [replayAll, h.1, Option.bind_some]
    exact ih n.span h.2

/-- Every announcement on the way finds the view at the rows of its own span. -/
theorem replayAll_of_leads_append (s s' : Span) (before after : List Notice) (n : Notice)
    (h : Leads s (before ++ n :: after) s') :
    replayAll s.ids (before ++ [n]) = some n.span.ids := by
  induction before generalizing s with
  | nil =>
    rw [List.nil_append, replayAll, h.1]
    rfl
  | cons m rest ih =>
    rw [List.cons_append, replayAll, h.1, Option.bind_some]
    exact ih m.span h.2

/-- Rows go in front when the lower bound moves up within the table. -/
theorem replay_trim (s : Span) (first : Int) (hs : s.Countable) (hpos : 0 < s.last)
    (hfirst : s.first < first) (hlast : first ≤ s.last) :
    replay s.ids ⟨.removed 0 (first - s.first).natAbs, ⟨first, s.last⟩⟩ =
      some (Span.ids ⟨first, s.last⟩) := by
  have hcut : Span.Countable ⟨first, s.last⟩ := ⟨Int.lt_trans hs.1 hfirst, hs.2⟩
  have hrows := Span.rows_of_countable s hs hpos
  have hrows' := Span.rows_of_countable ⟨first, s.last⟩ hcut hpos
  simp only at hrows'
  have hcount : (first - s.first).natAbs ≤ s.rows := by omega
  have hleft : s.rows - (first - s.first).natAbs = Span.rows ⟨first, s.last⟩ := by omega
  have hmoved : s.first + ((first - s.first).natAbs : Int) = first := by omega
  simp only [replay, Span.length_ids, hcount, and_self, if_true]
  rw [Span.ids, Span.drop_idsFrom, hleft, hmoved]
  rfl

/-- Rows come in behind when the upper bound moves up. The row they come in at is
counted from the lower bound, which is inside the table. -/
theorem replay_grow (s : Span) (last : Int) (hs : s.Countable) (hpos : 0 < s.last)
    (hfirst : s.first ≤ s.last) (hlast : s.last < last) (hmax : last ≤ maxId) :
    replay s.ids ⟨.inserted ((s.last - s.first).natAbs + 1) (last - s.last).natAbs,
      ⟨s.first, last⟩⟩ = some (Span.ids ⟨s.first, last⟩) := by
  have hgrown : Span.Countable ⟨s.first, last⟩ := ⟨hs.1, by simp only; omega, hmax⟩
  have hrows := Span.rows_of_countable s hs hpos
  have hrows' := Span.rows_of_countable ⟨s.first, last⟩ hgrown (by simp only; omega)
  simp only at hrows'
  have hend : (s.last - s.first).natAbs + 1 = s.rows := by omega
  have hall : Span.rows ⟨s.first, last⟩ = s.rows + (last - s.last).natAbs := by omega
  obtain ⟨n, hn⟩ : ∃ n, s.rows = n + 1 := ⟨s.rows - 1, by omega⟩
  have hgetLast : s.ids.getLast? = some s.last := by
    rw [Span.ids, hn, Span.getLast?_idsFrom]
    congr 1
    omega
  have hnext : s.last + 1 = s.first + (s.rows : Int) := by omega
  simp only [replay, hgetLast, Span.length_ids, hend, if_true]
  rw [Span.ids, Span.ids, hnext, hall, Span.idsFrom_add]

theorem replay_changed (s : Span) (h : s.rows ≠ 0) :
    replay s.ids ⟨.changed 0 (s.rows - 1), s⟩ = some s.ids := by
  have hlast : s.rows - 1 + 1 = s.rows := by omega
  simp only [replay, Span.length_ids, hlast, and_self, if_true]

/-- The announcements of a plan lead from the rows of the old span to those of the
new one, through those of the span in between if there are two edits. -/
theorem leads_between (old new : Span) (hold : old.Countable) (hnew : new.Countable) :
    Leads old (ofEdits old (Plan.between old new).edits) new := by
  by_cases hne : old = new
  · subst hne
    rw [Plan.edits_between_self]
    rfl
  · by_cases h : Plan.NoOverlap old new
    · rw [Plan.edits_between_of_noOverlap old new hne h]
      exact ⟨rfl, rfl⟩
    · obtain ⟨hfirst, hinside, hlast, hzero⟩ := Plan.not_noOverlap old new h
      rw [Plan.edits_between_of_overlap old new hne h]
      obtain ⟨a, b⟩ := old
      obtain ⟨c, d⟩ := new
      simp only at hfirst hinside hlast hzero
      have hpos : 0 < b := by
        have hnonneg : 0 ≤ b := hold.2.1
        omega
      have hcut : Span.Countable ⟨c, b⟩ := ⟨hnew.1, hold.2⟩
      by_cases htrim : a < c <;> by_cases hgrow : b < d
      · rw [Plan.trimTo_of_lt ⟨a, b⟩ ⟨c, d⟩ htrim, Plan.growTo_of_lt ⟨a, b⟩ ⟨c, d⟩ hgrow]
        exact ⟨replay_trim ⟨a, b⟩ c hold hpos htrim (Int.le_of_lt hinside),
          replay_grow ⟨c, b⟩ d hcut hpos (Int.le_of_lt hinside) hgrow hnew.2.2, rfl⟩
      · obtain rfl : b = d := by omega
        rw [Plan.trimTo_of_lt ⟨a, b⟩ ⟨c, b⟩ htrim, Plan.growTo_of_not_lt ⟨a, b⟩ ⟨c, b⟩ hgrow]
        exact ⟨replay_trim ⟨a, b⟩ c hold hpos htrim (Int.le_of_lt hinside), rfl⟩
      · obtain rfl : a = c := by omega
        rw [Plan.trimTo_of_not_lt ⟨a, b⟩ ⟨a, d⟩ htrim, Plan.growTo_of_lt ⟨a, b⟩ ⟨a, d⟩ hgrow]
        exact ⟨replay_grow ⟨a, b⟩ d hold hpos (Int.le_of_lt hinside) hgrow hnew.2.2, rfl⟩
      · exact absurd (by congr 1 <;> omega) hne

end Notice

namespace Table

variable {ε : Type}

def changeNotices (t : Table) : List Notice :=
  if t.rows = 0 then [] else [⟨.changed 0 (t.rows - 1), t.span⟩]

def notices (t : Table) (source : Source ε) : Action → List Notice
  | .update =>
    match source.span with
    | .ok new => Notice.ofEdits t.span (Plan.between t.span new).edits
    | .error _ => []
  | .refresh => t.changeNotices
  | .setResolve resolve => if t.resolve = resolve then [] else t.changeNotices
  | _ => []

theorem refresh_pending (t : Table) :
    t.refresh.pending = t.pending ++ t.changeNotices.map (·.event) := by
  simp only [refresh, changeNotices]
  split <;> simp

theorem observe_pending (t : Table) (new : Span) :
    (t.observe new).pending =
      t.pending ++ (Notice.ofEdits t.span (Plan.between t.span new).edits).map (·.event) := by
  rw [Notice.ofEdits_event]
  unfold observe
  split
  · rename_i h
    rw [← h, Plan.edits_between_self]
    simp
  · rfl

/-- Taking empties the announcements not taken yet, and every other action adds its
own behind them. -/
theorem act_pending (t : Table) (source : Source ε) (a : Action) :
    (t.act source a).pending =
      match a with
      | .takeEvents => []
      | _ => t.pending ++ (t.notices source a).map (·.event) := by
  cases a with
  | update =>
    simp only [act, update, notices]
    cases source.span with
    | ok new => exact observe_pending t new
    | error cause => simp
  | refresh => exact refresh_pending t
  | setResolve resolve =>
    simp only [act, setResolve, notices]
    split
    · simp
    · exact refresh_pending { t with resolve }
  | read row => simp [act, after, notices]
  | readCell row column role => simp [act, after, notices]
  | takeEvents => rfl

theorem leads_changeNotices (t : Table) : Notice.Leads t.span t.changeNotices t.span := by
  unfold changeNotices
  split
  · rfl
  · rename_i h
    exact ⟨Notice.replay_changed t.span h, rfl⟩

/-- What an action announces leads a view to the rows that the table has after it. -/
theorem leads_notices (t : Table) (source : Source ε) (a : Action) (ht : t.span.Countable)
    (hs : ∀ s, source.span = .ok s → s.Countable) :
    Notice.Leads t.span (t.notices source a) (t.act source a).span := by
  rw [act_span]
  cases a with
  | update =>
    simp only [notices]
    cases hspan : source.span with
    | ok new => exact Notice.leads_between t.span new ht (hs new hspan)
    | error cause => rfl
  | refresh => exact leads_changeNotices t
  | setResolve resolve =>
    simp only [notices]
    split
    · rfl
    · exact leads_changeNotices t
  | read row => rfl
  | readCell row column role => rfl
  | takeEvents => rfl

theorem act_countable (t : Table) (source : Source ε) (a : Action) (ht : t.span.Countable)
    (hs : ∀ s, source.span = .ok s → s.Countable) : (t.act source a).span.Countable := by
  rw [act_span]
  split
  · rename_i new hspan
    exact hs new hspan
  · exact ht

end Table

structure Journal where
  table : Table
  taken : List (List Event)
  made : List Notice

namespace Journal

variable {ε : Type}

def start (hosts : HostNames) (resolve : Bool) : Journal := ⟨Table.new hosts resolve, [], []⟩

def step (j : Journal) (source : Source ε) (a : Table.Action) : Journal where
  table := j.table.act source a
  taken :=
    match a with
    | .takeEvents => j.taken ++ [j.table.takeEvents.1]
    | _ => j.taken
  made := j.made ++ j.table.notices source a

def run (j : Journal) (schedule : List (Source ε × Table.Action)) : Journal :=
  schedule.foldl (fun j s => j.step s.1 s.2) j

/-- Nothing that was announced is lost, and all of it leads a view from no rows to
the rows of the table. -/
structure Faithful (j : Journal) : Prop where
  countable : j.table.span.Countable
  kept : j.taken.flatten ++ j.table.pending = j.made.map (·.event)
  leads : Notice.Leads Span.empty j.made j.table.span

theorem start_faithful (hosts : HostNames) (resolve : Bool) :
    (start hosts resolve).Faithful where
  countable := (⟨by decide, by decide, by decide⟩ : Span.empty.Countable)
  kept := rfl
  leads := rfl

/-- What was taken and what is pending go on being all that was announced. -/
theorem step_kept (j : Journal) (source : Source ε) (a : Table.Action)
    (h : j.taken.flatten ++ j.table.pending = j.made.map (·.event)) :
    (j.step source a).taken.flatten ++ (j.step source a).table.pending =
      (j.step source a).made.map (·.event) := by
  simp only [step]
  rw [Table.act_pending, List.map_append, ← h]
  cases a with
  | takeEvents => simp [Table.takeEvents, Table.notices]
  | _ => simp only [List.append_assoc]

/-- Every action keeps a journal faithful. -/
theorem step_faithful (j : Journal) (source : Source ε) (a : Table.Action) (h : j.Faithful)
    (hs : ∀ s, source.span = .ok s → s.Countable) : (j.step source a).Faithful where
  countable := Table.act_countable j.table source a h.countable hs
  kept := step_kept j source a h.kept
  leads :=
    Notice.leads_append Span.empty j.table.span _ j.made _ h.leads
      (Table.leads_notices j.table source a h.countable hs)

/-- A journal is faithful after every schedule. -/
theorem run_faithful (j : Journal) (schedule : List (Source ε × Table.Action)) (h : j.Faithful)
    (hs : ∀ s ∈ schedule, ∀ span, s.1.span = .ok span → span.Countable) :
    (j.run schedule).Faithful := by
  induction schedule generalizing j with
  | nil => exact h
  | cons s rest ih =>
    apply ih (j.step s.1 s.2)
    · exact step_faithful j s.1 s.2 h (hs s List.mem_cons_self)
    · intro s' hs'
      exact hs s' (List.mem_cons_of_mem s hs')

/-- Whatever a viewer does, what was taken and what is still to be taken are together
what was announced, in order; and a view that replays it from no rows can do each
step, has after it as many rows as the span then has, and ends with the identifiers
of the rows of the table. -/
theorem replay_run (hosts : HostNames) (resolve : Bool)
    (schedule : List (Source ε × Table.Action))
    (hs : ∀ s ∈ schedule, ∀ span, s.1.span = .ok span → span.Countable) :
    ((start hosts resolve).run schedule).taken.flatten ++
        ((start hosts resolve).run schedule).table.pending =
      ((start hosts resolve).run schedule).made.map (·.event) ∧
    (∀ before n after, ((start hosts resolve).run schedule).made = before ++ n :: after →
      ∃ ids, Notice.replayAll [] (before ++ [n]) = some ids ∧ ids.length = n.span.rows) ∧
    Notice.replayAll [] ((start hosts resolve).run schedule).made =
      some ((List.range ((start hosts resolve).run schedule).table.rows).map
        fun i : Nat => ((start hosts resolve).run schedule).table.span.first + (i : Int)) := by
  have h := run_faithful (start hosts resolve) schedule (start_faithful hosts resolve) hs
  refine ⟨h.kept, ?_, Notice.replayAll_of_leads Span.empty _ _ h.leads⟩
  intro before n after hmade
  refine ⟨n.span.ids, ?_, Span.length_ids n.span⟩
  have hleads := h.leads
  rw [hmade] at hleads
  exact Notice.replayAll_of_leads_append Span.empty _ before after n hleads

def movingSchedule : List (Source Unit × Table.Action) :=
  let seen (first last : Int) : Source Unit := ⟨.ok ⟨first, last⟩, fun _ => .ok none⟩
  [(seen 9 4, .update), (seen 5 8, .update), (seen 5 8, .takeEvents), (seen 5 8, .refresh),
    (seen 7 10, .update)]

/-- The schedule resets twice, refreshes, trims and grows. -/
theorem replay_run_movingSchedule :
    (∀ s ∈ movingSchedule, ∀ span, s.1.span = .ok span → span.Countable) ∧
    ((start HostNames.empty false).run movingSchedule).made.map (·.event) =
      [.reset, .reset, .changed 0 3, .removed 0 2, .inserted 2 2] ∧
    Notice.replayAll [] ((start HostNames.empty false).run movingSchedule).made =
      some [7, 8, 9, 10] := by
  have hs : ∀ s ∈ movingSchedule, ∀ span, s.1.span = .ok span → span.Countable := by
    intro s hmem span hspan
    simp only [movingSchedule, List.mem_cons, List.not_mem_nil, or_false] at hmem
    rcases hmem with rfl | rfl | rfl | rfl | rfl <;> cases hspan <;>
      exact ⟨by decide, by decide, by decide⟩
  refine ⟨hs, rfl, ?_⟩
  rw [(replay_run HostNames.empty false movingSchedule hs).2.2]
  rfl

end Journal

end ConnectionLog
