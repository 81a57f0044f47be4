import ConnectionLog.Proofs.Table.Actions
import ConnectionLog.Proofs.Table.Reading

/-!
What rows look like when they are printed. Where the cache holds nothing but what a fetch
would give now, it leaves no mark on a line: every line is that of a table which fetches
the record of a row and keeps nothing.
-/
namespace ConnectionLog

variable {ε : Type}

def RowLine.Shows (line : RowLine) (v : View) (source : Source ε) : Prop :=
  ∃ value, Window.load source line.id = .ok value ∧ line = RowLine.ofRow v line.id value

def Table.plainLine (v : View) (span : Span) (source : Source ε) (row : Nat) :
    Except (LineError ε) RowLine :=
  match span.id? row with
  | none => .error (.row (.outOfRange row span.rows))
  | some id =>
    match Window.load source id with
    | .ok value => .ok (RowLine.ofRow v id value)
    | .error e => .error (.cell id e)

def Table.plainLines (v : View) (span : Span) (source : Source ε) (start : Nat) :
    Nat → List RowLine × Option (LineError ε)
  | 0 => ([], none)
  | count + 1 =>
    match plainLine v span source start with
    | .error e => ([], some e)
    | .ok line =>
      (line :: (plainLines v span source (start + 1) count).1,
        (plainLines v span source (start + 1) count).2)

/-- A table that only cached something since, nothing but what a fetch would give now. -/
structure Table.Reread (t : Table) (source : Source ε) (t' : Table) : Prop where
  same : ∃ cache, t' = t.recached cache
  current : t'.window.Current source

namespace Table

theorem Reread.refl (t : Table) (source : Source ε) (h : t.window.Current source) :
    t.Reread source t :=
  ⟨⟨t.window.cache, t.recached_self⟩, h⟩

theorem Reread.trans (t t' t'' : Table) (source : Source ε) (h : t.Reread source t')
    (h' : t'.Reread source t'') : t.Reread source t'' := by
  obtain ⟨cache, rfl⟩ := h.same
  obtain ⟨cache', rfl⟩ := h'.same
  exact ⟨⟨cache', rfl⟩, h'.current⟩

theorem Reread.span_eq (t t' : Table) (source : Source ε) (h : t.Reread source t') :
    t'.span = t.span := by
  obtain ⟨cache, rfl⟩ := h.same
  rfl

theorem Reread.view_eq (t t' : Table) (source : Source ε) (h : t.Reread source t') :
    t'.view = t.view := by
  obtain ⟨cache, rfl⟩ := h.same
  rfl

theorem after_reread (t : Table) (source : Source ε) (row : Nat)
    (h : t.window.Current source) : t.Reread source (t.after (t.read source row)) :=
  ⟨⟨_, t.after_read_recached source row⟩,
    Window.step_current t.window source (.read source row) rfl h⟩

theorem readLine_of_current (t : Table) (source : Source ε) (row : Nat)
    (h : t.window.Current source) :
    ∃ p, t.readLine (fun _ => source) row = (plainLine t.view t.span source row, p) ∧
      t.Reread source p.table := by
  obtain ⟨p, hline, htable, -⟩ := t.readLine_eq (fun _ => source) row
  refine ⟨p, ?_, htable ▸ t.after_reread source row h⟩
  rw [hline, read, Window.read_of_current t.window source row h, plainLine]
  congr 1
  cases hid : t.span.id? row with
  | none => rfl
  | some id =>
    have hplain : Window.plainRead t.window.span source row = Window.load source id := by
      change Window.plainRead t.span source row = _
      rw [Window.plainRead, hid]
    cases hload : Window.load source id with
    | ok value => simp only [hplain, hload]
    | error e => simp only [hplain, hload]

/-- Lines are those of a table without a cache. -/
theorem readLines_of_current (t : Table) (source : Source ε) (start count : Nat)
    (h : t.window.Current source) :
    ∃ t', t.readLines source start count =
        ((plainLines t.view t.span source start count).1,
          (plainLines t.view t.span source start count).2, t') ∧
      t.Reread source t' := by
  induction count generalizing t start with
  | zero => exact ⟨t, rfl, Reread.refl t source h⟩
  | succ count ih =>
    obtain ⟨p, hline, hp⟩ := t.readLine_of_current source start h
    cases hplain : plainLine t.view t.span source start with
    | error e =>
      rw [hplain] at hline
      exact ⟨p.table, by simp only [readLines, hline, plainLines, hplain], hp⟩
    | ok line =>
      obtain ⟨t', hlines, ht'⟩ := ih p.table (start + 1) hp.current
      rw [hp.span_eq, hp.view_eq] at hlines
      rw [hplain] at hline
      refine ⟨t', ?_, hp.trans _ _ _ _ ht'⟩
      simp only [readLines, hline, plainLines, hplain, hlines]

/-- Every line shows what the log has. -/
theorem mem_plainLines (v : View) (span : Span) (source : Source ε) (start count : Nat)
    (line : RowLine) (h : line ∈ (plainLines v span source start count).1) :
    line.Shows v source := by
  induction count generalizing start with
  | zero => exact nomatch h
  | succ count ih =>
    rw [plainLines] at h
    cases hplain : plainLine v span source start with
    | error e =>
      rw [hplain] at h
      exact nomatch h
    | ok first =>
      rw [hplain] at h
      rcases List.mem_cons.mp h with rfl | hrest
      · unfold plainLine at hplain
        split at hplain
        · exact nomatch hplain
        · rename_i id hid
          cases hload : Window.load source id with
          | error e =>
            rw [hload] at hplain
            exact nomatch hplain
          | ok value =>
            rw [hload] at hplain
            cases hplain
            exact ⟨value, hload, rfl⟩
      · exact ih (start + 1) hrest

/-- Where every row stands for an identifier and no read fails, every row is printed. -/
theorem plainLines_of_answers (v : View) (span : Span) (source : Source ε) (start count : Nat)
    (hrows : ∀ row, start ≤ row → row < start + count → ∃ id, span.id? row = some id)
    (hsource : source.Answers) :
    (plainLines v span source start count).2 = none ∧
      (plainLines v span source start count).1.map (·.id) =
        Span.idsFrom (span.first + start) count := by
  induction count generalizing start with
  | zero => exact ⟨rfl, rfl⟩
  | succ count ih =>
    obtain ⟨id, hid⟩ := hrows start (Nat.le_refl start) (by omega)
    obtain ⟨-, -, -, rfl⟩ := (span.id?_eq_some_iff start id).mp hid
    obtain ⟨record, hfetch⟩ := hsource (span.first + start)
    obtain ⟨hnone, hids⟩ := ih (start + 1) fun row hstart hrow =>
      hrows row (by omega) (by omega)
    have hplain : plainLine v span source start =
        .ok (RowLine.ofRow v (span.first + start) (record.map Record.decode)) := by
      simp only [plainLine, hid, Window.load, hfetch]
    refine ⟨by simp only [plainLines, hplain, hnone], ?_⟩
    simp only [plainLines, hplain, List.map_cons, hids, Span.idsFrom_succ, RowLine.ofRow]
    congr 2
    omega

/-- Of the rows that the table has all are printed, each as the log has it. -/
theorem readLines_shows (t : Table) (source : Source ε) (start count : Nat)
    (hrows : ∀ row, start ≤ row → row < start + count → ∃ id, t.span.id? row = some id)
    (hsource : source.Answers) (h : t.window.Current source) :
    ∃ rows cache, t.readLines source start count = (rows, none, t.recached cache) ∧
      rows.map (·.id) = Span.idsFrom (t.span.first + start) count ∧
      ∀ line ∈ rows, line.Shows t.view source := by
  obtain ⟨hnone, hids⟩ := plainLines_of_answers t.view t.span source start count hrows hsource
  obtain ⟨t', hlines, ht'⟩ := t.readLines_of_current source start count h
  obtain ⟨cache, rfl⟩ := ht'.same
  rw [hnone] at hlines
  exact ⟨_, cache, hlines, hids,
    fun line hline => mem_plainLines t.view t.span source start count line hline⟩

theorem rows_le_maxCount (t : Table) : t.rows ≤ maxCount := by
  change t.span.rows ≤ maxCount
  unfold Span.rows
  split <;> omega

/-- Rows that are told show the log, one for each identifier. -/
theorem tellRows_of_current (t : Table) (source : Source ε) (start count : Nat)
    (hcount : start + count ≤ t.rows) (hspan : t.span.Numbered) (hsource : source.Answers)
    (h : t.window.Current source) :
    ∃ (rows : List RowLine) (cache : RowCache),
      t.tellRows source start count = ⟨rows.map .row, .ok (t.recached cache)⟩ ∧
      rows.map (·.id) = Span.idsFrom (t.span.first + start) count ∧
      ∀ line ∈ rows, line.Shows t.view source := by
  have hpage : t.pageSize start (some count) = count := by
    have hle := t.rows_le_maxCount
    simp only [pageSize]
    omega
  obtain ⟨rows, cache, hlines, hids, hshown⟩ := t.readLines_shows source start count
    (fun row _ hrow => hspan row (Nat.lt_of_lt_of_le hrow hcount)) hsource h
  refine ⟨rows, cache, ?_, hids, hshown⟩
  simp only [tellRows, hpage, hlines]

/-- A freshly loaded table has nothing cached. It shows a log under the names and the setting
it was loaded with, if there is a row to show. -/
theorem load_of_source (hosts : HostNames) (resolve : Bool) (log : Log) :
    ∃ t, load hosts resolve log.source = .ok t ∧ t.span = log.span ∧
      t.window.Current log.source ∧ (0 < t.rows → t.view = ⟨resolve, hosts⟩) := by
  have hspan : ((Table.new hosts resolve).observe log.span).span = log.span := by
    rw [span, observe_window, Window.observe_span]
  refine ⟨(Table.new hosts resolve).observe log.span, rfl, hspan, ?_, ?_⟩
  · intro e he
    rw [observe_window] at he
    by_cases hsame : log.span = (Table.new hosts resolve).window.span
    · rw [hsame, Window.observe_self] at he
      cases he
    · rw [Window.observe_cache _ _ hsame] at he
      cases he
  · intro hrows
    have hempty : log.span.isEmpty = false := by
      rw [rows, Window.rows, ← span, hspan] at hrows
      cases h : log.span.isEmpty with
      | false => rfl
      | true =>
        rw [Span.rows, h] at hrows
        exact absurd hrows (Nat.lt_irrefl 0)
    unfold view observe
    split
    · rfl
    · simp only [hempty]
      rfl

end Table

end ConnectionLog
