import ConnectionLog.Proofs.Command.Listing
import ConnectionLog.Proofs.Files.Runs

/-!
Listing a log page by page. A line says no more than what the log has under its identifier,
so two listings of one log differ only in the identifiers they list. Those of a page are cut
out of those of the whole listing, and pages of one size follow each other without a gap.
-/
namespace ConnectionLog

def pageOf {α : Type} (xs : List α) (offset : Nat) (limit : Option Nat) : List α :=
  match limit with
  | some limit => (xs.drop offset).take limit
  | none => xs.drop offset

theorem map_pageOf {α β : Type} (f : α → β) (xs : List α) (offset : Nat) (limit : Option Nat) :
    (pageOf xs offset limit).map f = pageOf (xs.map f) offset limit := by
  cases limit with
  | none => exact List.map_drop
  | some limit =>
    simp only [pageOf]
    rw [List.map_take, List.map_drop]

theorem mem_of_mem_pageOf {α : Type} (xs : List α) (offset : Nat) (limit : Option Nat) (x : α)
    (h : x ∈ pageOf xs offset limit) : x ∈ xs := by
  cases limit with
  | none => exact List.mem_of_mem_drop h
  | some limit => exact List.mem_of_mem_drop (List.mem_of_mem_take h)

/-- The identifiers of a page are cut out of those of all rows. -/
theorem Span.page_eq (s : Span) (offset : Nat) (limit : Option Nat) :
    s.page offset limit = pageOf s.ids offset limit := by
  cases limit <;> rfl

/-- So many pages of one size are as much of a list as they have room for. -/
theorem flatMap_pageOf {α : Type} (xs : List α) (n pages : Nat) :
    ((List.range pages).flatMap fun k => pageOf xs (k * n) (some n)) = xs.take (pages * n) := by
  induction pages with
  | zero => rw [Nat.zero_mul, List.take_zero, List.range_zero, List.flatMap_nil]
  | succ pages ih =>
    rw [List.range_succ, List.flatMap_append, ih, List.flatMap_singleton, Nat.succ_mul,
      List.take_add]
    rfl

/-- A log shows one line under an identifier. -/
theorem RowLine.Shows.eq_of_id_eq {ε : Type} (line line' : RowLine) (v : View)
    (source : Source ε) (h : line.Shows v source) (h' : line'.Shows v source)
    (hid : line.id = line'.id) : line = line' := by
  obtain ⟨value, hload, hline⟩ := h
  obtain ⟨value', hload', hline'⟩ := h'
  rw [hid, hload'] at hload
  cases hload
  rw [hline, hline', hid]

/-- Rows that show one log under the same identifiers are the same. -/
theorem RowLine.eq_of_shows {ε : Type} (v : View) (source : Source ε) (rows rows' : List RowLine)
    (h : ∀ line ∈ rows, line.Shows v source) (h' : ∀ line ∈ rows', line.Shows v source)
    (hids : rows.map (·.id) = rows'.map (·.id)) : rows = rows' := by
  induction rows generalizing rows' with
  | nil => exact (List.map_eq_nil_iff.mp hids.symm).symm
  | cons line rest ih =>
    cases rows' with
    | nil => exact nomatch hids
    | cons line' rest' =>
      obtain ⟨hid, hrest⟩ := List.cons.inj hids
      obtain ⟨hline, hlines⟩ := List.forall_mem_cons.mp h
      obtain ⟨hline', hlines'⟩ := List.forall_mem_cons.mp h'
      rw [hline.eq_of_id_eq line line' v source hline' hid, ih rest' hlines hlines' hrest]

/-- However a log came about, its connections have no gaps and each of them can be read. -/
theorem OpenLog.reached_readable (path : String) (log : OpenLog) (t : FileTree)
    (given : List Int) (h : Reached path log t given) :
    ∃ db, log.held = .ok db ∧ log.source = db.log.source ∧ db.log.Unbroken ∧
      db.log.Authored := by
  obtain ⟨db, hholding, hunbroken, hauthored⟩ :=
    reached_induct (fun log _ => log.Unbroken ∧ log.Authored)
      ⟨Log.empty_unbroken, Log.empty_authored⟩
      (fun log log' w outcome _ hlog hwrite =>
        ⟨Log.write_unbroken log log' w outcome hlog.1 hwrite,
          Log.write_authored log log' w outcome hlog.2 hwrite⟩)
      path log t given h
  exact ⟨db, hholding.held, source_of_held log db hholding.held hholding.complete, hunbroken,
    hauthored⟩

namespace Command

/-- These rows are what is listed of a log, and every page is cut out of them. -/
structure Paged (log : OpenLog) (s : Settings) (now : Int) (resolve : Bool)
    (rows : List RowLine) : Prop where
  whole : (runOn log s now (.list 0 none resolve)).1 =
    ⟨RowLine.headingText :: rows.map (·.text), none⟩
  page : ∀ offset limit, (runOn log s now (.list offset limit resolve)).1 =
    ⟨RowLine.headingText :: (pageOf rows offset limit).map (·.text), none⟩
  pages : ∀ n count, rows.length ≤ count * n →
    ((List.range count).flatMap fun k =>
      (runOn log s now (.list (k * n) (some n) resolve)).1.lines.tail) = rows.map (·.text)

/-- Rows out of which every page is cut are the whole listing. -/
theorem paged_of_page (log : OpenLog) (s : Settings) (now : Int) (resolve : Bool)
    (rows : List RowLine)
    (h : ∀ offset limit, (runOn log s now (.list offset limit resolve)).1 =
      ⟨RowLine.headingText :: (pageOf rows offset limit).map (·.text), none⟩) :
    Paged log s now resolve rows where
  whole := h 0 none
  page := h
  pages := by
    intro n count hcount
    simp only [h, List.tail_cons, map_pageOf]
    rw [flatMap_pageOf, List.take_of_length_le]
    rw [List.length_map]
    exact hcount

/-- The whole listing of a log has one row for each connection, in the order of their
identifiers, and a listing from an offset on, up to a limit, is what is left of its rows
there. So pages of one size, one after the other, are the whole listing. -/
theorem list_pages (path : String) (log : OpenLog) (t : FileTree) (given : List Int)
    (hreached : OpenLog.Reached path log t given) (s : Settings) (now : Int) (resolve : Bool) :
    ∃ (db : Database) (rows : List RowLine), log.held = .ok db ∧
      rows.map (·.id) = db.log.ids.reverse ∧ (rows.map (·.id)).Pairwise (· < ·) ∧
      (∀ line ∈ rows, line.Shows ⟨resolve || s.view.resolve, s.view.hosts⟩ log.source) ∧
      Paged log s now resolve rows := by
  obtain ⟨db, hheld, hsource, hunbroken, hauthored⟩ :=
    OpenLog.reached_readable path log t given hreached
  have hlines := list_lines log db.log hsource hunbroken hauthored s now
  obtain ⟨rows, hwhole, hids, hshown⟩ := hlines 0 none resolve
  have hall : rows.map (·.id) = db.log.span.ids := hids
  refine ⟨db, rows, hheld, ?_, ?_, ?_, paged_of_page log s now resolve rows ?_⟩
  · rw [hall, Log.ids_reverse db.log hunbroken]
  · rw [hall]
    exact Span.pairwise_idsFrom _ _
  · rw [hsource]
    exact hshown
  · intro offset limit
    obtain ⟨part, hpage, hpart, hshown'⟩ := hlines offset limit resolve
    have hcut : part = pageOf rows offset limit := by
      refine RowLine.eq_of_shows _ db.log.source part _ hshown' (fun line hline => ?_) ?_
      · exact hshown line (mem_of_mem_pageOf rows offset limit line hline)
      · rw [hpart, map_pageOf, hall, Span.page_eq]
    rw [hpage, hcut]

/-- A prune has left two of three connections. The second of them is all there is from offset
one on, with as large a limit as there can be, and nothing is beyond. -/
theorem list_pages_pruned :
    let c := Seed.connection [1] 0 false 0
    let start : OpenLog := ⟨none, false, .beside, .ok Database.empty⟩
    let log := start.afterAll [.register "/bin/a", .append c, .append c, .append c, .prune 2]
    OpenLog.Reached ":memory:" log ⟨[], []⟩ [3, 2, 1] ∧
      ∃ first second : RowLine, first.id = 2 ∧ second.id = 3 ∧
        (runOn log Settings.default 0 (.list 0 none false)).1.lines =
          [RowLine.headingText, first.text, second.text] ∧
        (runOn log Settings.default 0 (.list 1 (some maxCount) false)).1.lines =
          [RowLine.headingText, second.text] ∧
        (runOn log Settings.default 0 (.list maxCount none false)).1.lines =
          [RowLine.headingText] := by
  intro c start log
  have hopened : OpenLog.Reached ":memory:" start ⟨[], []⟩ [] :=
    OpenLog.Reached.opened _ _ _ _ rfl rfl rfl
  have happ := OpenLog.Reached.wrote _ _ _ _ (.register "/bin/a") _ hopened rfl
  have hfirst := OpenLog.Reached.wrote _ _ _ _ (.append c) _ happ rfl
  have hsecond := OpenLog.Reached.wrote _ _ _ _ (.append c) _ hfirst rfl
  have hthird := OpenLog.Reached.wrote _ _ _ _ (.append c) _ hsecond rfl
  have hlog : OpenLog.Reached ":memory:" log ⟨[], []⟩ [3, 2, 1] :=
    OpenLog.Reached.wrote _ _ _ _ (.prune 2) _ hthird rfl
  obtain ⟨db, rows, hheld, hids, -, -, hpaged⟩ :=
    list_pages ":memory:" log _ _ hlog Settings.default 0 false
  cases hheld
  have htwo : rows.map (·.id) = [2, 3] := hids
  obtain ⟨first, rest, rfl, hfirstId, hrest⟩ := List.map_eq_cons_iff.mp htwo
  obtain ⟨second, rfl, hsecondId⟩ := List.map_eq_singleton_iff.mp hrest
  refine ⟨hlog, first, second, hfirstId, hsecondId, ?_, ?_, ?_⟩
  · rw [hpaged.whole]
    rfl
  · rw [hpaged.page]
    rfl
  · rw [hpaged.page]
    rfl

end Command

end ConnectionLog
