import ConnectionLog.Command.Run
import ConnectionLog.Proofs.Cell.Fields
import ConnectionLog.Proofs.Files.Calls
import ConnectionLog.Proofs.Table.Lines

/-!
The listing of a log as a table of lines and fields. Tabs and line feeds are all that tells
the fields and the lines apart, and cells are printed as they are. So the listing can be
taken apart again exactly if no cell holds one of them.
-/
namespace ConnectionLog

namespace Pieces

theorem length_splitOn_pos (a : Char) (piece : List Char) : 0 < (piece.splitOn a).length :=
  List.length_pos_of_ne_nil (List.splitOn_ne_nil a piece)

theorem one_lt_length_splitOn (a : Char) (piece : List Char) (h : a ∈ piece) :
    1 < (piece.splitOn a).length := by
  obtain ⟨before, rest, rfl⟩ := List.append_of_mem h
  have hbefore := length_splitOn_pos a before
  have hrest := length_splitOn_pos a rest
  rw [List.splitOn_append_cons_self, List.length_append]
  omega

theorem length_le_length_flatMap (a : Char) (pieces : List (List Char)) :
    pieces.length ≤ (pieces.flatMap (·.splitOn a)).length := by
  induction pieces with
  | nil => exact Nat.le_refl 0
  | cons piece rest ih =>
    have hpiece := length_splitOn_pos a piece
    rw [List.flatMap_cons, List.length_append, List.length_cons]
    omega

/-- Pieces that do not fall apart any further do not hold the separator. -/
theorem not_mem_of_length_flatMap (a : Char) (pieces : List (List Char))
    (h : (pieces.flatMap (·.splitOn a)).length = pieces.length) : ∀ piece ∈ pieces, a ∉ piece := by
  induction pieces with
  | nil => exact List.forall_mem_nil _
  | cons piece rest ih =>
    have hpiece := length_splitOn_pos a piece
    have hrest := length_le_length_flatMap a rest
    rw [List.flatMap_cons, List.length_append, List.length_cons] at h
    refine List.forall_mem_cons.mpr ⟨fun hmem => ?_, ih (by omega)⟩
    have hmore := one_lt_length_splitOn a piece hmem
    omega

theorem flatMap_splitOn_self (a : Char) (pieces : List (List Char))
    (h : ∀ piece ∈ pieces, a ∉ piece) : pieces.flatMap (·.splitOn a) = pieces := by
  induction pieces with
  | nil => rfl
  | cons piece rest ih =>
    obtain ⟨hpiece, hrest⟩ := List.forall_mem_cons.mp h
    rw [List.flatMap_cons, List.splitOn_eq_singleton hpiece, ih hrest, List.singleton_append]

/-- Joined pieces are split where they were joined, and where they hold the separator themselves. -/
theorem splitOn_intercalate (a : Char) (pieces : List (List Char)) (hne : pieces ≠ []) :
    ([a].intercalate pieces).splitOn a = pieces.flatMap (·.splitOn a) := by
  induction pieces with
  | nil => exact absurd rfl hne
  | cons piece rest ih =>
    cases rest with
    | nil => simp
    | cons next rest =>
      rw [List.intercalate_cons_cons, List.append_assoc, List.singleton_append,
        List.splitOn_append_cons_self, ih (List.cons_ne_nil next rest)]
      rfl

theorem not_mem_intercalate (a sep : Char) (hsep : a ≠ sep) (pieces : List (List Char)) :
    a ∉ [sep].intercalate pieces ↔ ∀ piece ∈ pieces, a ∉ piece := by
  induction pieces with
  | nil => simp
  | cons piece rest ih =>
    cases rest with
    | nil => simp
    | cons next rest =>
      rw [List.intercalate_cons_cons, List.forall_mem_cons, ← ih]
      simp [hsep]

/-- Where every line ends in a separator, there is nothing behind the last one. -/
theorem splitOn_lines (a : Char) (lines : List (List Char)) :
    (lines.flatMap (· ++ [a])).splitOn a = lines.flatMap (·.splitOn a) ++ [[]] := by
  induction lines with
  | nil => rfl
  | cons line rest ih =>
    rw [List.flatMap_cons, List.flatMap_cons, List.append_assoc, List.singleton_append,
      List.splitOn_append_cons_self, ih, List.append_assoc]

end Pieces

/-- A text that is taken apart into a heading and a line for each identifier, where each line
is taken apart into ten fields and the first field of a row is its identifier. -/
def IsListing (text : String) (ids : List Int) : Prop :=
  ∃ rows : List (List Char),
    text.toList.splitOn '\n' = RowLine.headingText.toList :: rows ++ [[]] ∧
      (∀ line ∈ RowLine.headingText.toList :: rows, (line.splitOn '\t').length = 10) ∧
      rows.map (fun line => (line.splitOn '\t').head?) =
        ids.map fun id => some (Numeral.decimalInt id)

namespace RowLine

theorem toList_text (line : RowLine) :
    line.text.toList =
      ['\t'].intercalate (Numeral.decimalInt line.id :: line.cells.map String.toList) := by
  rw [text, String.toList_intercalate, List.map_cons, Numeral.intText, String.toList_ofList,
    String.toList_ofList]

theorem splitOn_text (line : RowLine) :
    line.text.toList.splitOn '\t' =
      (Numeral.decimalInt line.id :: line.cells.map String.toList).flatMap (·.splitOn '\t') := by
  rw [toList_text]
  exact Pieces.splitOn_intercalate '\t' _ (List.cons_ne_nil _ _)

/-- A line of nine cells is one of ten fields exactly if its cells fit into fields. -/
theorem fits_iff (line : RowLine) (hcells : line.cells.length = 9) :
    '\n' ∉ line.text.toList ∧ (line.text.toList.splitOn '\t').length = 10 ↔
      ∀ cell ∈ line.cells, IsField cell.toList := by
  have hid := Numeral.isField_decimalInt line.id
  have hlength : (Numeral.decimalInt line.id :: line.cells.map String.toList).length = 10 := by
    rw [List.length_cons, List.length_map, hcells]
  rw [splitOn_text, toList_text, Pieces.not_mem_intercalate '\n' '\t' (by decide),
    List.forall_mem_cons]
  constructor
  · rintro ⟨⟨-, hfeed⟩, hten⟩ cell hcell
    have htab := Pieces.not_mem_of_length_flatMap '\t' _ (hten.trans hlength.symm)
    have hmem := List.mem_map_of_mem (f := String.toList) hcell
    exact ⟨htab _ (List.mem_cons_of_mem _ hmem), hfeed _ hmem⟩
  · intro h
    have hcell : ∀ piece ∈ line.cells.map String.toList, IsField piece := by
      intro piece hpiece
      obtain ⟨cell, hmem, rfl⟩ := List.mem_map.mp hpiece
      exact h cell hmem
    refine ⟨⟨hid.2, fun piece hpiece => (hcell piece hpiece).2⟩, ?_⟩
    rw [Pieces.flatMap_splitOn_self '\t', hlength]
    exact List.forall_mem_cons.mpr ⟨hid.1, fun piece hpiece => (hcell piece hpiece).1⟩

/-- The first field of a row is its identifier, whatever its cells hold. -/
theorem head?_splitOn_text (line : RowLine) :
    (line.text.toList.splitOn '\t').head? = some (Numeral.decimalInt line.id) := by
  rw [splitOn_text, List.flatMap_cons,
    List.splitOn_eq_singleton (Numeral.isField_decimalInt line.id).1]
  rfl

/-- The heading is one line of ten fields. -/
theorem headingText_fits : '\n' ∉ headingText.toList ∧
    (headingText.toList.splitOn '\t').length = 10 := by decide

end RowLine

/-- What is printed ends in a line feed, so that an empty piece follows the last line. -/
theorem Report.splitOn_text (r : Report) :
    r.text.toList.splitOn '\n' = (r.lines.map String.toList).flatMap (·.splitOn '\n') ++ [[]] := by
  rw [← Pieces.splitOn_lines, text, String.toList_join, List.flatMap_map, List.flatMap_map]
  simp only [String.toList_append]
  rfl

/-- A report of a heading and rows is a listing exactly if all cells fit into fields. -/
theorem isListing_iff (rows : List RowLine) (fault : Option CommandFault)
    (hcells : ∀ line ∈ rows, line.cells.length = 9) :
    IsListing (Report.text ⟨RowLine.headingText :: rows.map (·.text), fault⟩) (rows.map (·.id)) ↔
      ∀ line ∈ rows, ∀ cell ∈ line.cells, IsField cell.toList := by
  obtain ⟨hheading, hheadingTen⟩ := RowLine.headingText_fits
  have hlines : (rows.map (·.text)).map String.toList = rows.map (·.text.toList) := List.map_map
  have hsplit : (Report.text ⟨RowLine.headingText :: rows.map (·.text), fault⟩).toList.splitOn
      '\n' = RowLine.headingText.toList ::
        (rows.map (·.text.toList)).flatMap (·.splitOn '\n') ++ [[]] := by
    rw [Report.splitOn_text, List.map_cons, List.flatMap_cons, hlines,
      List.splitOn_eq_singleton hheading]
    rfl
  unfold IsListing
  rw [hsplit]
  constructor
  · rintro ⟨lines, hrows, hten, hids⟩
    have hsame : (rows.map (·.text.toList)).flatMap (·.splitOn '\n') = lines :=
      List.append_cancel_right (List.cons.inj hrows).2
    have hlength : lines.length = rows.length := by
      have hcount := congrArg List.length hids
      simpa only [List.length_map] using hcount
    -- There are as many lines as rows, so no row falls apart into more.
    have hfeed := Pieces.not_mem_of_length_flatMap '\n' (rows.map (·.text.toList))
      (by rw [hsame, hlength, List.length_map])
    rw [Pieces.flatMap_splitOn_self '\n' _ hfeed] at hsame
    intro line hline
    have hmem : line.text.toList ∈ rows.map (·.text.toList) := List.mem_map_of_mem hline
    refine (line.fits_iff (hcells line hline)).mp ⟨hfeed _ hmem, ?_⟩
    exact hten _ (List.mem_cons_of_mem _ (hsame ▸ hmem))
  · intro h
    have hfits : ∀ line ∈ rows,
        '\n' ∉ line.text.toList ∧ (line.text.toList.splitOn '\t').length = 10 :=
      fun line hline => (line.fits_iff (hcells line hline)).mpr (h line hline)
    refine ⟨rows.map (·.text.toList), ?_, ?_, ?_⟩
    · rw [Pieces.flatMap_splitOn_self '\n']
      intro piece hpiece
      obtain ⟨line, hline, rfl⟩ := List.mem_map.mp hpiece
      exact (hfits line hline).1
    · refine List.forall_mem_cons.mpr ⟨hheadingTen, fun piece hpiece => ?_⟩
      obtain ⟨line, hline, rfl⟩ := List.mem_map.mp hpiece
      exact (hfits line hline).2
    · rw [List.map_map, List.map_map]
      exact List.map_congr_left fun line _ => line.head?_splitOn_text

theorem RowLine.Shows.length_cells (line : RowLine) (v : View) (source : Source DatabaseFault)
    (h : line.Shows v source) : line.cells.length = 9 := by
  obtain ⟨value, -, hline⟩ := h
  rw [hline]
  rfl

/-- The cells of a line fit into fields exactly if those of its connection do. A line without
a connection is blank. -/
theorem RowLine.ofRow_fits_iff (v : View) (id : Int) (value : Row) :
    (∀ cell ∈ (RowLine.ofRow v id value).cells, IsField cell.toList) ↔
      ∀ c, value = some c → c.InFields v := by
  have hcells : (∀ cell ∈ (RowLine.ofRow v id value).cells, IsField cell.toList) ↔
      ∀ column ∈ Column.all,
        IsField ((value.bind fun c => c.columnText? v column).getD "").toList :=
    List.forall_mem_map
  rw [hcells]
  cases value with
  | none =>
    have hblank : IsField "".toList := by decide
    simp only [Option.bind_none, Option.getD_none, hblank, reduceCtorEq, implies_true,
      false_implies]
  | some c =>
    have hc := c.inFields_iff v
    constructor
    · intro h c' hc'
      rw [← Option.some.inj hc']
      exact hc.mpr h
    · exact fun h => hc.mp (h c rfl)

def Span.page (s : Span) (offset : Nat) (limit : Option Nat) : List Int :=
  match limit with
  | some limit => (s.ids.drop offset).take limit
  | none => s.ids.drop offset

theorem Table.idsFrom_pageSize (t : Table) (offset : Nat) (limit : Option Nat) :
    Span.idsFrom (t.span.first + offset) (t.pageSize offset limit) =
      t.span.page offset limit := by
  have hle := t.rows_le_maxCount
  have hrows : t.rows = t.span.rows := rfl
  unfold Span.page Span.ids pageSize
  cases limit with
  | none => rw [Span.drop_idsFrom, hrows]
  | some limit =>
    simp only
    rw [Span.drop_idsFrom, Span.take_idsFrom]
    congr 1
    omega

namespace Command

/-- A listing of a log is put together from a heading and the lines of the rows asked for. -/
theorem list_lines (log : OpenLog) (l : Log) (hsource : log.source = l.source)
    (hlog : l.Unbroken) (hauthored : l.Authored) (s : Settings) (now : Int) (offset : Nat)
    (limit : Option Nat) (resolve : Bool) :
    ∃ rows : List RowLine,
      (runOn log s now (.list offset limit resolve)).1 =
        ⟨RowLine.headingText :: rows.map (·.text), none⟩ ∧
      rows.map (·.id) = l.span.page offset limit ∧
      ∀ line ∈ rows, line.Shows ⟨resolve || s.view.resolve, s.view.hosts⟩ l.source := by
  obtain ⟨t, hload, hspan, hcurrent, hview⟩ :=
    Table.load_of_source s.view.hosts (resolve || s.view.resolve) l
  have hnumbered := l.span_numbered hlog
  rw [← hspan] at hnumbered
  obtain ⟨rows, cache, hlines, hids, hshown⟩ := t.readLines_shows l.source offset
    (t.pageSize offset limit) (t.page_numbered offset limit hnumbered)
    (l.source_answers hauthored) hcurrent
  refine ⟨rows, ?_, ?_, fun line hline => ?_⟩
  · simp only [runOn, withTable, hsource, hload, reportList, hlines, Option.map_none]
  · rw [hids, t.idsFrom_pageSize, hspan]
  · -- A line is there, so a row is, and the names were not forgotten.
    have hlength := congrArg List.length hids
    rw [List.length_map, Span.length_idsFrom] at hlength
    have hpage := List.length_pos_of_mem hline
    rw [hlength] at hpage
    have hle := t.add_pageSize_le offset limit hpage
    rw [← hview (by omega)]
    exact hshown line hline

/-- The listing of a log that was written to in any way ends without a fault. It is a table
with a line of ten fields for every row that is asked for exactly if the name of no listed
application, and of no host that is shown by its name, holds a tab or a line feed. -/
theorem list_isListing_iff (log : OpenLog) (writes : List Log.Write)
    (hsource : log.source = (Log.run writes).source) (s : Settings) (now : Int) (offset : Nat)
    (limit : Option Nat) (resolve : Bool) :
    let report := (runOn log s now (.list offset limit resolve)).1
    let ids := (Log.run writes).span.page offset limit
    report.fault = none ∧
      (IsListing report.text ids ↔
        ∀ id ∈ ids, ∀ c, Window.load log.source id = .ok (some c) →
          c.InFields ⟨resolve || s.view.resolve, s.view.hosts⟩) := by
  intro report ids
  obtain ⟨rows, hreport, hids, hshown⟩ := list_lines log (Log.run writes) hsource
    (Log.run_unbroken writes) (Log.run_authored writes) s now offset limit resolve
  have hcells : ∀ line ∈ rows, line.cells.length = 9 :=
    fun line hline => (hshown line hline).length_cells
  have hreport' : report = ⟨RowLine.headingText :: rows.map (·.text), none⟩ := hreport
  have hids' : ids = rows.map (·.id) := hids.symm
  refine ⟨by rw [hreport'], ?_⟩
  rw [hreport', hids', isListing_iff rows none hcells, List.forall_mem_map, hsource]
  refine forall_congr' fun line => forall_congr' fun hline => ?_
  obtain ⟨value, hload, heq⟩ := hshown line hline
  rw [heq, RowLine.ofRow_fits_iff]
  change _ ↔ ∀ c, Window.load (Log.run writes).source line.id = .ok (some c) → _
  rw [hload]
  simp only [Except.ok.injEq]

/-- One connection, with the name of its far host. -/
theorem list_isListing_iff_named :
    let c := Seed.connection [1] 0 false 0
    let writes : List Log.Write := [.register "/usr/bin/curl", .append c]
    let log : OpenLog := ⟨none, false, .beside, .ok (Database.ofLog (Log.run writes))⟩
    let s : Settings :=
      ⟨.default, ⟨true, 1000, HostNames.empty.insert "203.0.0.0" "example.com"⟩, .default⟩
    log.source = (Log.run writes).source ∧
      IsListing (runOn log s 0 (.list 0 none false)).1.text [1] := by
  intro c writes log s
  have hsource : log.source = (Log.run writes).source := OpenLog.source_of_held log _ rfl rfl
  obtain ⟨-, hiff⟩ := list_isListing_iff log writes hsource s 0 0 none false
  have hids : (Log.run writes).span.page 0 none = [1] := by decide
  have hload : Window.load log.source 1 = .ok (some (c.connection 1 "/usr/bin/curl")) := rfl
  rw [hids] at hiff
  refine ⟨hsource, hiff.mpr ?_⟩
  intro id hid c' hc'
  rw [List.mem_singleton.mp hid, hload] at hc'
  cases hc'
  refine ⟨by decide, ?_⟩
  have hnear : s.view.hosts.name? (c.connection 1 "/usr/bin/curl").endpoints.near.text =
      none := by decide +kernel
  have hfar : s.view.hosts.name? (c.connection 1 "/usr/bin/curl").endpoints.far.text =
      some "example.com" := by decide +kernel
  intro address haddress name _ hname
  change s.view.hosts.name? address.text = some name at hname
  rcases List.mem_cons.mp haddress with rfl | hrest
  · rw [hnear] at hname
    cases hname
  · rw [List.mem_singleton.mp hrest, hfar] at hname
    rw [← Option.some.inj hname]
    decide

/-- A tab in the path of an application makes a field more. -/
theorem list_isListing_tab :
    let c := Seed.connection [1] 0 false 0
    let writes : List Log.Write := [.register "/usr/bin/a\tb", .append c]
    let log : OpenLog := ⟨none, false, .beside, .ok (Database.ofLog (Log.run writes))⟩
    let report := (runOn log Settings.default 0 (.list 0 none false)).1
    report.lines = [RowLine.headingText,
        "1\ta\tb\t1000\tTCP\t192.168.1.10:40000\t203.0.0.0:443\tIn\tBlocked\t" ++
          "Internet address (Inherited)\t1970-01-01 00:00:00"] ∧
      ¬ IsListing report.text [1] := by
  intro c writes log report
  obtain ⟨rows, hreport, hids, hshown⟩ := list_lines log (Log.run writes)
    (OpenLog.source_of_held log _ rfl rfl) (Log.run_unbroken writes) (Log.run_authored writes)
    Settings.default 0 0 none false
  have hpage : (Log.run writes).span.page 0 none = [1] := by decide
  obtain ⟨line, rfl, hid⟩ := List.map_eq_singleton_iff.mp (hids.trans hpage)
  have hcells : ∀ line' ∈ [line], line'.cells.length = 9 :=
    fun line' hline' => (hshown line' hline').length_cells
  obtain ⟨value, hload, hline⟩ := hshown line (List.mem_singleton_self line)
  have hfound : Window.load (Log.run writes).source 1 =
      .ok (some (c.connection 1 "/usr/bin/a\tb")) := rfl
  rw [hid, hfound] at hload
  cases hload
  rw [hid] at hline
  have hreport' : report = ⟨[RowLine.headingText, line.text], none⟩ := hreport
  refine ⟨?_, ?_⟩
  · have htext : (RowLine.ofRow ⟨false, HostNames.empty⟩ 1
        (some (c.connection 1 "/usr/bin/a\tb"))).text =
        "1\ta\tb\t1000\tTCP\t192.168.1.10:40000\t203.0.0.0:443\tIn\tBlocked\t" ++
          "Internet address (Inherited)\t1970-01-01 00:00:00" := by decide +kernel
    rw [hreport', ← htext, hline]
    rfl
  · have hname : AppName.ofPath "/usr/bin/a\tb" = "a\tb" := by decide +kernel
    have hcell : "a\tb" ∈ line.cells := by
      rw [hline, ← hname]
      exact List.mem_cons_self
    rw [hreport', ← hid]
    intro h
    have hfield := (isListing_iff [line] none hcells).mp h line (List.mem_singleton_self line) _
      hcell
    exact absurd hfield (by decide)

end Command

end ConnectionLog
