import ConnectionLog.Proofs.Files.Runs
import ConnectionLog.Proofs.Table.Reading
import ConnectionLog.Proofs.Table.Scene

/-!
Lines that are not torn. What a table has cached may be older than everything else in it, but
it was fetched at one moment, from a log as it was then, under the identifier that its row
stands for. So a line shows one value in all its cells, in front of them the identifier of
that value, whatever is written to the log while the line is made.
-/
namespace ConnectionLog

variable {ε : Type}

def Source.Identifies (source : Source ε) : Prop :=
  ∀ id record, source.fetch id = .ok (some record) → record.id = id

theorem Database.source_identifies (db : Database) : db.source.Identifies := by
  intro id record h
  change db.fetch id = _ at h
  rw [fetch] at h
  split at h
  · exact db.log.fetch_id id record h
  · cases h

/-- This needs nothing of the log: not even that it was only written to by its writer. -/
theorem OpenLog.source_identifies (log : OpenLog) : log.source.Identifies := by
  intro id record h
  rw [source] at h
  cases hheld : log.held with
  | ok db =>
    rw [hheld] at h
    exact db.source_identifies id record h
  | error fault =>
    rw [hheld] at h
    cases h

namespace Window

/-- A record that is shown under an identifier is the record of it. -/
theorem load_id (source : Source ε) (hsource : source.Identifies) (id : Int) (c : Connection)
    (h : load source id = .ok (some c)) : c.id = id := by
  obtain ⟨found, hfetch, hvalue⟩ := (load_eq_ok_iff source id (some c)).mp h
  cases found with
  | none => exact nomatch hvalue
  | some record =>
    cases hvalue
    exact hsource id record hfetch

variable {P : Source ε → Prop}

/-- What is cached was fetched, under the identifier it is cached with, from a log of a
kind. -/
def FetchedFrom (P : Source ε → Prop) (w : Window) : Prop :=
  ∀ e, w.cache.entry = some e → ∃ source, P source ∧ load source e.id = .ok e.value

def Step.Finds (P : Source ε → Prop) : Step ε → Prop
  | .read source _ => P source
  | _ => True

theorem step_fetchedFrom (w : Window) (s : Step ε) (hs : s.Finds P) (h : w.FetchedFrom P) :
    (w.step s).FetchedFrom P := by
  intro e he
  rcases (entry_of_step w s e he).2 with ⟨-, hkept⟩ | ⟨source, rfl, -, -, hload⟩
  · exact h e hkept
  · exact ⟨source, hs, hload⟩

/-- A run brings in no value from elsewhere. -/
theorem run_fetchedFrom (w : Window) (steps : List (Step ε)) (hs : ∀ s ∈ steps, s.Finds P)
    (h : w.FetchedFrom P) : (w.run steps).FetchedFrom P := by
  induction steps generalizing w with
  | nil => exact h
  | cons s rest ih =>
    exact ih (w.step s) (fun s' hs' => hs s' (List.mem_cons_of_mem s hs'))
      (step_fetchedFrom w s (hs s List.mem_cons_self) h)

end Window

namespace Scene

variable {P : Source ε → Prop}

def Turn.Finds (P : Source ε → Prop) : Turn ε → Prop
  | .store source => P source
  | _ => True

theorem step_fetchedFrom (s : Scene ε) (turn : Turn ε) (hturn : turn.Finds P)
    (hsource : P s.source) (h : s.table.window.FetchedFrom P) :
    P (s.step turn).source ∧ (s.step turn).table.window.FetchedFrom P := by
  cases turn with
  | act a =>
    refine ⟨hsource, ?_⟩
    change (s.table.act s.source a).window.FetchedFrom P
    rw [Table.act_window]
    refine Window.run_fetchedFrom _ _ (fun m hm => ?_) h
    cases m with
    | read found row =>
      rw [Window.Step.Finds, Table.eq_of_mem_moves s.table s.source found a row hm]
      exact hsource
    | observe new => trivial
    | invalidate => trivial
  | name address name => exact ⟨hsource, h⟩
  | forgetNames => exact ⟨hsource, h⟩
  | store source => exact ⟨hturn, h⟩

theorem run_fetchedFrom (s : Scene ε) (turns : List (Turn ε))
    (hturns : ∀ turn ∈ turns, turn.Finds P) (hsource : P s.source)
    (h : s.table.window.FetchedFrom P) : (s.run turns).table.window.FetchedFrom P := by
  induction turns generalizing s with
  | nil => exact h
  | cons turn rest ih =>
    obtain ⟨hsource', h'⟩ := s.step_fetchedFrom turn (hturns turn List.mem_cons_self) hsource h
    exact ih (s.step turn) (fun turn' hturn' => hturns turn' (List.mem_cons_of_mem turn hturn'))
      hsource' h'

end Scene

namespace Progress

theorem readCell_counts (p : Progress) (log : Nat → Source ε) (row : Nat) (column : Column)
    (role : Role) :
    ∃ answer p', p.readCell log row column role = (answer, p') ∧ p'.reads = p.reads + 1 :=
  ⟨_, _, rfl, rfl⟩

theorem showCell_counts (p : Progress) (log : Nat → Source ε) (row : Nat) (column : Column) :
    ∃ answer p', p.showCell log row column = (answer, p') ∧ p'.reads ≤ p.reads + 2 := by
  obtain ⟨answer, p', hshow, hfirst⟩ := p.readCell_counts log row column .display
  obtain ⟨hint, p'', hhint, hsecond⟩ := p'.readCell_counts log row column .hint
  rcases answer with e | none | text
  · exact ⟨.error e, p', by simp only [showCell, hshow], by omega⟩
  · cases hint with
    | error e => exact ⟨.error e, p'', by simp only [showCell, hshow, hhint], by omega⟩
    | ok text =>
      exact ⟨.ok (text.getD ""), p'', by simp only [showCell, hshow, hhint], by omega⟩
  · exact ⟨.ok text, p', by simp only [showCell, hshow], by omega⟩

theorem showCells_counts (p : Progress) (log : Nat → Source ε) (row : Nat)
    (columns : List Column) :
    ∃ answer p', p.showCells log row columns = (answer, p') ∧
      p'.reads ≤ p.reads + 2 * columns.length := by
  induction columns generalizing p with
  | nil => exact ⟨.ok [], p, rfl, Nat.le_add_right _ _⟩
  | cons column rest ih =>
    obtain ⟨answer, p', hshow, hcell⟩ := p.showCell_counts log row column
    obtain ⟨others, p'', hcells, hrest⟩ := ih p'
    rw [List.length_cons]
    cases answer with
    | error e => exact ⟨.error e, p', by simp only [showCells, hshow], by omega⟩
    | ok text =>
      cases others with
      | error e => exact ⟨.error e, p'', by simp only [showCells, hshow, hcells], by omega⟩
      | ok texts =>
        exact ⟨.ok (text :: texts), p'', by simp only [showCells, hshow, hcells], by omega⟩

end Progress

/-- A line made of one value: of what each column has to show for it, or else of the hint there
is, or else of nothing. It is blank without a record, and starts with the identifier of the
record otherwise. -/
structure RowLine.Whole (line : RowLine) (v : View) (value : Row) : Prop where
  cells : line.cells =
    match value with
    | none => List.replicate Column.all.length ""
    | some c => Column.all.map fun column =>
      ((c.cellText? v column .display).or (c.cellText? v column .hint)).getD ""
  id : ∀ c, value = some c → c.id = line.id

theorem RowLine.ofRow_whole (v : View) (id : Int) (value : Row)
    (hid : ∀ c, value = some c → c.id = id) : (ofRow v id value).Whole v value where
  cells := by
    cases value with
    | none => rfl
    | some c =>
      simp only [ofRow, Connection.cellText?_orElse]
      rfl
  id := hid

namespace Table

/-- There are nine columns, and each is read for its text at most and for its hint. -/
theorem readLine_reads (t : Table) (log : Nat → Source ε) (row : Nat) :
    (t.readLine log row).2.reads ≤ 18 := by
  obtain ⟨answer, p, hcells, hreads⟩ :=
    (Progress.start t).showCells_counts log row Column.all
  rw [readLine]
  cases (t.window.identify row : Except (ReadError ε) Int) with
  | error e => exact Nat.zero_le _
  | ok id =>
    cases answer with
    | error e =>
      simp only [hcells]
      exact hreads
    | ok cells =>
      simp only [hcells]
      exact hreads

/-- A line fetches what its first read fetches. -/
theorem readLine_fetched (t : Table) (log : Nat → Source ε) (row : Nat) :
    (t.readLine log row).2.fetched = (t.read (log 0) row).fetched.toList := by
  obtain ⟨p, hline, -, hp⟩ := t.readLine_eq log row
  rw [hline]
  exact hp

/-- A line that comes out is that of a row the table has, made of what its first read gave. -/
theorem readLine_ok_iff (t : Table) (log : Nat → Source ε) (row : Nat) (line : RowLine) :
    (t.readLine log row).1 = .ok line ↔
      t.span.id? row = some line.id ∧
        ∃ value, (t.read (log 0) row).answer = .ok value ∧
          line = RowLine.ofRow t.view line.id value := by
  obtain ⟨p, hline, -, -⟩ := t.readLine_eq log row
  rw [hline]
  cases t.span.id? row with
  | none => simp
  | some id =>
    cases (t.read (log 0) row).answer with
    | error e => simp
    | ok value =>
      constructor
      · intro h
        cases h
        exact ⟨rfl, value, rfl, rfl⟩
      · rintro ⟨hid, value', hvalue, hof⟩
        cases hid
        cases hvalue
        exact congrArg Except.ok hof.symm

/-- Wherever it was fetched from that has its records under their own identifiers, a line is
whole. -/
theorem readLine_ok_whole (P : Source ε → Prop) (hP : ∀ source, P source → source.Identifies)
    (t : Table) (log : Nat → Source ε) (row : Nat) (line : RowLine)
    (h : t.window.FetchedFrom P) (hlog : P (log 0)) (hline : (t.readLine log row).1 = .ok line) :
    ∃ (value : Row) (found : Source ε), P found ∧ line.Whole t.view value ∧
      Window.load found line.id = .ok value ∧
      ((t.readLine log row).2.fetched = [line.id] ∧ found = log 0 ∨
        (t.readLine log row).2.fetched = [] ∧
          t.window.cache.entry = some ⟨row, line.id, value⟩) := by
  obtain ⟨hid, value, hread, hof⟩ := (t.readLine_ok_iff log row line).mp hline
  have hwhole : ∀ found, P found → Window.load found line.id = .ok value →
      line.Whole t.view value := by
    intro found hfound hload
    rw [hof]
    refine RowLine.ofRow_whole t.view line.id value ?_
    rintro c rfl
    exact Window.load_id found (hP found hfound) line.id c hload
  rw [readLine_fetched]
  rcases t.window.read_sources (log 0) row line.id value hid hread with
    ⟨hfetched, hload⟩ | ⟨hfetched, hentry⟩
  · refine ⟨value, log 0, hlog, hwhole _ hlog hload, hload, Or.inl ⟨?_, rfl⟩⟩
    rw [read, hfetched]
    rfl
  · obtain ⟨found, hfound, hload⟩ := h _ hentry
    refine ⟨value, found, hfound, hwhole found hfound hload, hload, Or.inr ⟨?_, hentry⟩⟩
    rw [read, hfetched]
    rfl

def Stored (source : Source DatabaseFault) : Prop := ∃ log : OpenLog, source = log.source

/-- A line is whole. Whatever a table went through before, and whatever becomes of its log
between any two of the reads of cells that a line takes, no more than one record is fetched
for it, and all of its cells show the one value that was found under its identifier at one
moment: when the first cell was read, or earlier if the row is cached. A line fails only if
that first read does. -/
theorem readLine_whole (hosts : HostNames) (resolve : Bool) (first : OpenLog)
    (turns : List (Scene.Turn DatabaseFault)) (hturns : ∀ turn ∈ turns, turn.Finds Stored)
    (logs : Nat → OpenLog) (row : Nat) :
    let t := (Scene.run ⟨Table.new hosts resolve, first.source⟩ turns).table
    let result := t.readLine (fun n => (logs n).source) row
    result.2.reads ≤ 18 ∧ result.2.fetched.length ≤ 1 ∧
      ((∃ value, (t.read (logs 0).source row).answer = .ok value) →
        ∃ line, result.1 = .ok line) ∧
      ∀ line, result.1 = .ok line →
        t.span.id? row = some line.id ∧
        ∃ (value : Row) (log : OpenLog), line.Whole t.view value ∧
          Window.load log.source line.id = .ok value ∧
          (result.2.fetched = [line.id] ∧ log.source = (logs 0).source ∨
            result.2.fetched = [] ∧ t.window.cache.entry = some ⟨row, line.id, value⟩) := by
  intro t result
  have hfirst : Stored first.source := ⟨first, rfl⟩
  have hnew : (Table.new hosts resolve).window.FetchedFrom Stored := by
    intro e he
    exact nomatch he
  have hfetched : t.window.FetchedFrom Stored :=
    Scene.run_fetchedFrom ⟨Table.new hosts resolve, first.source⟩ turns hturns hfirst hnew
  have hidentifies : ∀ source, Stored source → source.Identifies := by
    rintro source ⟨log, rfl⟩
    exact log.source_identifies
  refine ⟨t.readLine_reads _ row, ?_, ?_, ?_⟩
  · rw [readLine_fetched]
    cases (t.read (logs 0).source row).fetched with
    | none => exact Nat.zero_le 1
    | some id => exact Nat.le_refl 1
  · rintro ⟨value, hread⟩
    obtain ⟨id, hid, -⟩ := t.window.read_ok (logs 0).source row value hread
    exact ⟨RowLine.ofRow t.view id value,
      (t.readLine_ok_iff _ row _).mpr ⟨hid, value, hread, rfl⟩⟩
  · intro line hline
    obtain ⟨hid, -⟩ := (t.readLine_ok_iff _ row line).mp hline
    obtain ⟨value, found, ⟨log, rfl⟩, hwhole, hload, hwhere⟩ :=
      t.readLine_ok_whole Stored hidentifies _ row line hfetched ⟨logs 0, rfl⟩ hline
    exact ⟨hid, value, log, hwhole, hload, hwhere⟩

/-- The connection of the row is gone when one cell of it has been read. -/
theorem readLine_whole_pruned :
    let c := Seed.connection [1] 0 false 0
    let start : OpenLog := ⟨none, false, .beside, .ok Database.empty⟩
    let full := start.afterAll [.register "/bin/a", .append c]
    let logs : Nat → OpenLog := fun reads => if reads = 0 then full else full.after (.prune 2)
    let turns : List (Scene.Turn DatabaseFault) := [.act .update]
    let t := (Scene.run ⟨Table.new HostNames.empty false, full.source⟩ turns).table
    let result := t.readLine (fun reads => (logs reads).source) 0
    let shown := (c.record 1 "/bin/a").decode
    Window.load (logs 1).source 1 = .ok none ∧
      ∃ line, result.1 = .ok line ∧ line.id = 1 ∧ result.2.fetched = [1] ∧
        line.Whole t.view (some shown) := by
  intro c start full logs turns t result shown
  have hturns : ∀ turn ∈ turns, turn.Finds Stored := by
    simp [turns, Scene.Turn.Finds]
  obtain ⟨-, -, hsuccess, hwhole⟩ :=
    readLine_whole HostNames.empty false full turns hturns logs 0
  have hread : (t.read (logs 0).source 0).answer = .ok (some shown) := rfl
  obtain ⟨line, hline⟩ := hsuccess ⟨_, hread⟩
  obtain ⟨hid, value, log, hvalue, hload, hwhere⟩ := hwhole line hline
  have hone : line.id = 1 := (Option.some.inj hid).symm
  rw [hone] at hload hwhere
  rcases hwhere with ⟨hfetched, hlog⟩ | ⟨-, hentry⟩
  · have hshown : Window.load full.source 1 = .ok (some shown) := rfl
    rw [hlog] at hload
    cases hshown.symm.trans hload
    refine ⟨rfl, line, hline, hone, ?_, hvalue⟩
    simp only [result, t]
    exact hfetched
  · have hempty : t.window.cache.entry = none := rfl
    rw [hempty] at hentry
    exact nomatch hentry

end Table

end ConnectionLog
