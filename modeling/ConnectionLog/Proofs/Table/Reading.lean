import ConnectionLog.Proofs.Log.Kept
import ConnectionLog.Proofs.Window.Steps
import ConnectionLog.Table.Watch

/-!
Rows that are printed are only read. A line is made from one read of its row, for the cache
answers all the others, so it is whole whatever becomes of the log meanwhile. Printing changes
what is cached and nothing else of a table, and over a log that answers every read it comes
to its end.
-/
namespace ConnectionLog

variable {ε : Type}

def Source.Answers (source : Source ε) : Prop := ∀ id, ∃ record, source.fetch id = .ok record

def Span.Numbered (s : Span) : Prop := ∀ row < s.rows, ∃ id, s.id? row = some id

/-- A log that only its writer wrote to can be read everywhere. -/
theorem Log.source_answers (log : Log) (h : log.Authored) : log.source.Answers :=
  log.fetch_of_authored h

theorem Log.span_numbered (log : Log) (h : log.Unbroken) : log.span.Numbered := by
  intro row hrow
  exact ⟨_, (Log.entry?_of_row log h row hrow).1⟩

theorem Window.read_of_answers (w : Window) (source : Source ε) (row : Nat) (id : Int)
    (hid : w.span.id? row = some id) (h : source.Answers) :
    ∃ value, (w.read source row).answer = .ok value := by
  cases hfind : w.cache.find? row id with
  | some value => exact ⟨value, by rw [read_of_hit w source row id value hid hfind]⟩
  | none =>
    obtain ⟨record, hfetch⟩ := h id
    refine ⟨record.map Record.decode, ?_⟩
    rw [read_of_miss w source row id hid hfind]
    simp only [load, hfetch]

namespace Table

def recached (t : Table) (cache : RowCache) : Table :=
  { t with window := ⟨t.window.span, cache⟩ }

@[simp] theorem recached_rows (t : Table) (cache : RowCache) :
    (t.recached cache).rows = t.rows := rfl

@[simp] theorem recached_recached (t : Table) (cache cache' : RowCache) :
    (t.recached cache).recached cache' = t.recached cache' := rfl

theorem recached_self (t : Table) : t.recached t.window.cache = t := rfl

theorem after_read_recached (t : Table) (source : Source ε) (row : Nat) :
    t.after (t.read source row) = t.recached (t.read source row).window.cache := by
  have hspan := t.window.read_span source row
  rw [recached, ← hspan]
  rfl

end Table

/-- The text to show, or else the hint, is all that a column has to say. -/
theorem Connection.cellText?_orElse (c : Connection) (v : View) (column : Column) :
    ((c.cellText? v column .display).or (c.cellText? v column .hint)) =
      c.columnText? v column := by
  cases column <;> simp [cellText?, Column.isPictorial, columnText?]

theorem Row.cellText?_orElse (value : Row) (v : View) (column : Column) :
    ((value.bind fun c => c.cellText? v column .display).or
        (value.bind fun c => c.cellText? v column .hint)) =
      value.bind fun c => c.columnText? v column := by
  cases value with
  | none => rfl
  | some c => exact c.cellText?_orElse v column

def RowLine.ofRow (v : View) (id : Int) (value : Row) : RowLine :=
  ⟨id, Column.all.map fun column => (value.bind fun c => c.columnText? v column).getD ""⟩

namespace Progress

variable {log : Nat → Source ε} {row : Nat} {p p' p'' : Progress}

/-- What is left by steps of a line that read its row, however many they are: only the first
read counts. -/
structure Seen (log : Nat → Source ε) (row : Nat) (p p' : Progress) : Prop where
  table : p'.table = p.table.after (p.table.read (log p.reads) row)
  fetched : p'.fetched = p.fetched ++ (p.table.read (log p.reads) row).fetched.toList

theorem Seen.view_eq (h : Seen log row p p') : p'.table.view = p.table.view := by
  rw [h.table]
  rfl

/-- Once the row was read, the cache answers. -/
theorem Seen.read_eq (h : Seen log row p p') (value : Row)
    (hread : (p.table.read (log p.reads) row).answer = .ok value) (source : Source ε) :
    p'.table.read source row = ⟨.ok value, none, p'.table.window⟩ := by
  rw [h.table]
  exact Window.read_again p.table.window (log p.reads) source row value hread

theorem Seen.trans (h : Seen log row p p') (h' : Seen log row p' p'') (value : Row)
    (hread : (p.table.read (log p.reads) row).answer = .ok value) : Seen log row p p'' := by
  have hagain := h.read_eq value hread (log p'.reads)
  refine ⟨?_, ?_⟩
  · rw [h'.table, hagain]
    exact h.table
  · rw [h'.fetched, hagain, h.fetched]
    exact List.append_nil _

/-- Reading a cell counts as one read of its row. -/
theorem readCell_seen (p : Progress) (log : Nat → Source ε) (row : Nat) (column : Column)
    (role : Role) :
    ∃ p', p.readCell log row column role =
        ((p.table.read (log p.reads) row).answer.map fun value =>
          value.bind fun c => c.cellText? p.table.view column role, p') ∧
      Seen log row p p' :=
  ⟨_, rfl, rfl, rfl⟩

/-- Showing a cell counts as one read of its row, with the hint or without. -/
theorem showCell_seen (p : Progress) (log : Nat → Source ε) (row : Nat) (column : Column) :
    ∃ p', p.showCell log row column =
        ((p.table.read (log p.reads) row).answer.map fun value =>
          (value.bind fun c => c.columnText? p.table.view column).getD "", p') ∧
      Seen log row p p' := by
  obtain ⟨p', hshow, hp'⟩ := p.readCell_seen log row column .display
  cases hread : (p.table.read (log p.reads) row).answer with
  | error e =>
    rw [hread] at hshow
    exact ⟨p', by simp only [showCell, hshow, Except.map], hp'⟩
  | ok value =>
    obtain ⟨p'', hhint, hp''⟩ := p'.readCell_seen log row column .hint
    rw [hp'.read_eq value hread, hp'.view_eq] at hhint
    rw [hread] at hshow
    have hsays := Row.cellText?_orElse value p.table.view column
    cases hdisplay : value.bind fun c => c.cellText? p.table.view column .display with
    | some text =>
      rw [hdisplay, Option.some_or] at hsays
      refine ⟨p', ?_, hp'⟩
      simp only [showCell, hshow, hdisplay, ← hsays, Except.map, Option.getD_some]
    | none =>
      rw [hdisplay, Option.none_or] at hsays
      refine ⟨p'', ?_, hp'.trans hp'' value hread⟩
      simp only [showCell, hshow, hdisplay, hhint, ← hsays, Except.map]

/-- All cells are those of one value. -/
theorem showCells_seen (p : Progress) (log : Nat → Source ε) (row : Nat) (columns : List Column)
    (hne : columns ≠ []) :
    ∃ p', p.showCells log row columns =
        ((p.table.read (log p.reads) row).answer.map fun value =>
          columns.map fun column =>
            (value.bind fun c => c.columnText? p.table.view column).getD "", p') ∧
      Seen log row p p' := by
  induction columns generalizing p with
  | nil => exact absurd rfl hne
  | cons column rest ih =>
    obtain ⟨p', hshow, hp'⟩ := p.showCell_seen log row column
    cases hread : (p.table.read (log p.reads) row).answer with
    | error e =>
      rw [hread] at hshow
      exact ⟨p', by simp only [showCells, hshow, Except.map], hp'⟩
    | ok value =>
      rw [hread] at hshow
      cases rest with
      | nil => exact ⟨p', by simp only [showCells, hshow, Except.map, List.map_cons,
          List.map_nil], hp'⟩
      | cons next rest =>
        obtain ⟨p'', hrest, hp''⟩ := ih p' (List.cons_ne_nil next rest)
        rw [hp'.read_eq value hread, hp'.view_eq] at hrest
        refine ⟨p'', ?_, hp'.trans hp'' value hread⟩
        rw [showCells, hshow]
        simp only [Except.map, hrest, List.map_cons]

end Progress

namespace Table

/-- A line is made from one read of its row, whatever becomes of the log meanwhile. -/
theorem readLine_eq (t : Table) (log : Nat → Source ε) (row : Nat) :
    ∃ p, t.readLine log row =
        (match t.span.id? row with
          | none => .error (.row (.outOfRange row t.rows))
          | some id =>
            match (t.read (log 0) row).answer with
            | .ok value => .ok (RowLine.ofRow t.view id value)
            | .error e => .error (.cell id e), p) ∧
      p.table = t.after (t.read (log 0) row) ∧
      p.fetched = (t.read (log 0) row).fetched.toList := by
  cases hid : t.span.id? row with
  | none =>
    have hread := t.window.read_of_none (log 0) row hid
    refine ⟨Progress.start t, ?_, ?_, ?_⟩
    · rw [readLine, Window.identify_of_none t.window row hid]
      rfl
    · rw [read, hread]
      rfl
    · rw [read, hread]
      rfl
  | some id =>
    obtain ⟨p, hcells, hp⟩ :=
      (Progress.start t).showCells_seen log row Column.all (List.cons_ne_nil _ _)
    refine ⟨p, ?_, hp.table, hp.fetched⟩
    rw [readLine, Window.identify_of_some t.window row id hid]
    change (Progress.start t).showCells log row Column.all =
      ((t.read (log 0) row).answer.map fun value => Column.all.map fun column =>
        (value.bind fun c => c.columnText? t.view column).getD "", p) at hcells
    rw [hcells]
    cases (t.read (log 0) row).answer with
    | ok value => rfl
    | error e => rfl

/-- Where no read fails every line comes out. -/
theorem readLines_ok (t : Table) (source : Source ε) (start count : Nat)
    (hrows : ∀ row, start ≤ row → row < start + count → ∃ id, t.span.id? row = some id)
    (hsource : source.Answers) :
    ∃ lines cache, t.readLines source start count = (lines, none, t.recached cache) := by
  induction count generalizing t start with
  | zero => exact ⟨[], t.window.cache, rfl⟩
  | succ count ih =>
    obtain ⟨id, hid⟩ := hrows start (Nat.le_refl start) (by omega)
    obtain ⟨value, hread⟩ := t.window.read_of_answers source start id hid hsource
    obtain ⟨p, hline, htable, -⟩ := t.readLine_eq (fun _ => source) start
    rw [hid, read, hread] at hline
    rw [after_read_recached] at htable
    obtain ⟨lines, cache, hlines⟩ := ih p.table (start + 1) <| by
      intro row hstart hrow
      rw [htable]
      exact hrows row (by omega) (by omega)
    refine ⟨RowLine.ofRow t.view id value :: lines, cache, ?_⟩
    rw [htable, recached_recached] at hlines
    simp only [readLines, hline, htable, hlines]

theorem add_pageSize_le (t : Table) (start : Nat) (limit : Option Nat)
    (h : 0 < t.pageSize start limit) : start + t.pageSize start limit ≤ t.rows := by
  unfold pageSize at *
  cases limit <;> simp only at * <;> omega

theorem page_numbered (t : Table) (start : Nat) (limit : Option Nat) (h : t.span.Numbered)
    (row : Nat) (hstart : start ≤ row) (hrow : row < start + t.pageSize start limit) :
    ∃ id, t.span.id? row = some id := by
  have hle := t.add_pageSize_le start limit (by omega)
  exact h row (Nat.lt_of_lt_of_le hrow hle)

/-- Telling of rows tells rows only. -/
theorem tellRows_ok (t : Table) (source : Source ε) (start count : Nat)
    (hspan : t.span.Numbered) (hsource : source.Answers) :
    ∃ (lines : List RowLine) (cache : RowCache), t.tellRows source start count =
      ⟨lines.map .row, .ok (t.recached cache)⟩ := by
  obtain ⟨lines, cache, hlines⟩ :=
    t.readLines_ok source start _ (t.page_numbered start (some count) hspan) hsource
  refine ⟨lines, cache, ?_⟩
  simp only [tellRows, hlines]

end Table

end ConnectionLog
