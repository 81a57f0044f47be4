import ConnectionLog.Proofs.Toml.Lines
import ConnectionLog.Proofs.Toml.Tables
import ConnectionLog.Settings.Reading
import ConnectionLog.Settings.Writing

/-!
Settings survive being written and read. The text of settings spells out the statements
of a document, the statements build a table, and the table read as settings gives back
what was written; only then does validation have its say.
-/
namespace ConnectionLog

/-! Names of hosts are put back in the order in which the table keeps them. -/

theorem insertEntry_last (address name : String) (entries : List (String × String))
    (h : ∀ e ∈ entries, e.1 < address) :
    insertEntry address name entries = entries ++ [(address, name)] := by
  induction entries with
  | nil => rfl
  | cons e entries ih =>
    have hlt : e.1 < address := h e List.mem_cons_self
    have hnot : ¬ address < e.1 := Std.not_lt.mpr (Std.le_of_lt hlt)
    have hne : address ≠ e.1 := by
      rintro rfl
      exact hnot hlt
    rw [insertEntry, if_neg hnot, if_neg hne, ih fun d hd => h d (List.mem_cons_of_mem e hd)]
    rfl

namespace HostNames

theorem foldl_insert (hosts : HostNames) (entries : List (String × String))
    (h : (hosts.entries ++ entries).Pairwise (·.1 < ·.1)) :
    (entries.foldl (fun hosts e => hosts.insert e.1 e.2) hosts).entries =
      hosts.entries ++ entries := by
  induction entries generalizing hosts with
  | nil => exact (List.append_nil _).symm
  | cons e entries ih =>
    have hsmaller : ∀ d ∈ hosts.entries, d.1 < e.1 := fun d hd =>
      (List.pairwise_append.mp h).2.2 d hd e List.mem_cons_self
    have hinsert : (hosts.insert e.1 e.2).entries = hosts.entries ++ [e] :=
      insertEntry_last e.1 e.2 hosts.entries hsmaller
    have hmore : (hosts.insert e.1 e.2).entries ++ entries = hosts.entries ++ e :: entries := by
      rw [hinsert, List.append_assoc]
      rfl
    rw [List.foldl_cons, ih (hosts.insert e.1 e.2) (hmore ▸ h), hmore]

/-- Entries in order are put together again. -/
theorem ofList_entries (hosts : HostNames) : ofList hosts.entries = hosts := by
  have hentries := foldl_insert empty hosts.entries hosts.sorted
  change (ofList hosts.entries).entries = hosts.entries at hentries
  cases hosts with
  | mk entries sorted =>
    cases hlist : ofList entries with
    | mk listed _ =>
      simp only [hlist] at hentries
      simp only [hentries]

theorem nodup_addresses (hosts : HostNames) : (hosts.entries.map Prod.fst).Nodup := by
  rw [List.Nodup, List.pairwise_map]
  refine hosts.sorted.imp ?_
  intro a b hlt heq
  exact String.lt_irrefl b.1 (heq ▸ hlt)

end HostNames

namespace Settings

open Toml

/-! The table that settings are written as. -/

def storeEntries (s : StoreSettings) : Entries :=
  [("path", .string s.path), ("read_only", .boolean s.readOnly)]

def hostEntries (hosts : HostNames) : Entries :=
  hosts.entries.map fun e => (e.1, .string e.2)

def viewEntries (s : ViewSettings) : Entries :=
  [("resolve_address", .boolean s.resolve), ("poll_interval_ms", .integer s.pollInterval)]

def viewTable (s : ViewSettings) : Value :=
  .table .header (viewEntries s ++ [("host_names", .table .header (hostEntries s.hosts))])

def loggingEntries (s : LoggingSettings) : Entries := [("level", .string s.level)]

def entries (s : Settings) : Entries :=
  [("store", .table .header (storeEntries s.store)), ("view", viewTable s.view),
    ("log", .table .header (loggingEntries s.logging))]

theorem asStore?_storeEntries (s : StoreSettings) :
    (Value.table .header (storeEntries s)).asStore? = some s := rfl

theorem asLogging?_loggingEntries (s : LoggingSettings) :
    (Value.table .header (loggingEntries s)).asLogging? = some s := rfl

theorem asHosts?_hostEntries (hosts : HostNames) :
    (Value.table .header (hostEntries hosts)).asHosts? = some hosts := by
  have hmap : (hostEntries hosts).mapM (fun e => (Value.asString? e.2).map (e.1, ·)) =
      some hosts.entries := by
    unfold hostEntries
    induction hosts.entries with
    | nil => rfl
    | cons e entries ih =>
      rw [List.map_cons, List.mapM_cons, ih]
      rfl
  unfold Value.asHosts? Fields.ofValue?
  simp only
  rw [hmap, Option.map_some, HostNames.ofList_entries]

theorem asNat?_natCast (n : Nat) : (Value.integer n).asNat? = some n := by
  unfold Value.asNat?
  exact if_pos (Int.natCast_nonneg n)

theorem asView?_viewTable (s : ViewSettings) : (viewTable s).asView? = some s := by
  show (do
    let resolve ← some s.resolve
    let pollInterval ← (Value.integer s.pollInterval).asNat?
    let hosts ← (Value.table .header (hostEntries s.hosts)).asHosts?
    return { resolve, pollInterval, hosts : ViewSettings }) = some s
  rw [asNat?_natCast, asHosts?_hostEntries]
  rfl

/-- The table has every setting under the name it is looked for. -/
theorem ofEntries?_entries (s : Settings) : ofEntries? s.entries = some s := by
  show (do
    let store ← (Value.table .header (storeEntries s.store)).asStore?
    let view ← (viewTable s.view).asView?
    let logging ← (Value.table .header (loggingEntries s.logging)).asLogging?
    return { store, view, logging : Settings }) = some s
  rw [asStore?_storeEntries, asView?_viewTable, asLogging?_loggingEntries]
  rfl

/-! The statements that build it. -/

def storeStatements (s : StoreSettings) : List Statement :=
  .header [] "store" :: (storeEntries s).statements

def viewStatements (s : ViewSettings) : List Statement :=
  (.header [] "view" :: (viewEntries s).statements) ++
    (.header ["view"] "host_names" :: (hostEntries s.hosts).statements)

def loggingStatements (s : LoggingSettings) : List Statement :=
  .header [] "log" :: (loggingEntries s).statements

def statements (s : Settings) : List Statement :=
  storeStatements s.store ++ viewStatements s.view ++ loggingStatements s.logging

theorem nodup_hostEntries (hosts : HostNames) : (hostEntries hosts).keys.Nodup := by
  unfold hostEntries Entries.keys
  rw [List.map_map]
  exact hosts.nodup_addresses

/-- A heading and the entries under it become one more table of the document. -/
theorem foldlM_heading (before entries : Entries) (current : List String) (key : String)
    (hfresh : key ∉ before.keys) (h : entries.keys.Nodup) :
    (.header [] key :: entries.statements).foldlM Document.add? ⟨before, current⟩ =
      some ⟨before ++ [(key, .table .header entries)], [key]⟩ :=
  Document.foldlM_section [] before current key entries hfresh h

theorem foldlM_viewStatements (s : ViewSettings) (before : Entries) (current : List String)
    (hfresh : "view" ∉ before.keys) :
    (viewStatements s).foldlM Document.add? ⟨before, current⟩ =
      some ⟨before ++ [("view", viewTable s)], ["view", "host_names"]⟩ := by
  have hsettings := foldlM_heading before (viewEntries s) current "view" hfresh
    (by simp [viewEntries, Entries.keys])
  have hhosts := Document.foldlM_section [⟨before, "view", hfresh⟩] (viewEntries s) ["view"]
    "host_names" (hostEntries s.hosts) (by simp [viewEntries, Entries.keys])
    (nodup_hostEntries s.hosts)
  unfold viewStatements
  rw [List.foldlM_append, hsettings]
  exact hhosts

/-- The statements of settings make up the document of their entries. -/
theorem ofStatements?_statements (s : Settings) :
    Document.ofStatements? s.statements = some ⟨s.entries, ["log"]⟩ := by
  have hstore := foldlM_heading [] (storeEntries s.store) [] "store" List.not_mem_nil
    (by simp [storeEntries, Entries.keys])
  have hview := foldlM_viewStatements s.view [("store", .table .header (storeEntries s.store))]
    ["store"] (by simp [Entries.keys])
  have hlogging := foldlM_heading
    [("store", .table .header (storeEntries s.store)), ("view", viewTable s.view)]
    (loggingEntries s.logging) ["view", "host_names"] "log" (by simp [Entries.keys])
    (by simp [loggingEntries, Entries.keys])
  calc s.statements.foldlM Document.add? .empty
    _ = (do
          let document ← (storeStatements s.store).foldlM Document.add? .empty
          let document ← (viewStatements s.view).foldlM Document.add? document
          (loggingStatements s.logging).foldlM Document.add? document) := by
      rw [statements, List.append_assoc, List.foldlM_append]
      simp only [List.foldlM_append]
    _ = some ⟨s.entries, ["log"]⟩ := by
      rw [storeStatements, Document.empty, hstore]
      show ((viewStatements s.view).foldlM Document.add? _).bind _ = _
      rw [List.nil_append, hview]
      exact hlogging

/-! The text that spells them out. -/

theorem spells_heading (path : List String) (key name : String) (hpath : path.length < deepest)
    (hname : name.toList = writeDotted path key) :
    Spells (headingLine name) [.header path key] := by
  unfold headingLine
  rw [hname]
  exact spells_header path key hpath

theorem spells_assignment (key : String) (text : List Char) (value : Value)
    (h : Shows text value) : Spells (assignmentLine (writeKey key) text) [.entry [] key value] :=
  spells_entry [] key text value (by decide) h

/-- The name of a setting is written as a bare key. -/
theorem spells_setting (name : String) (text : List Char) (value : Value)
    (hname : writeKey name = name.toList) (h : Shows text value) :
    Spells (assignmentLine name.toList text) [.entry [] name value] := by
  rw [← hname]
  exact spells_assignment name text value h

theorem spells_storeChars (s : StoreSettings) : Spells (storeChars s) (storeStatements s) := by
  have hheading := spells_heading [] "store" "store" (by decide) (by decide)
  have hpath := spells_setting "path" _ _ (by decide) (shows_writeString s.path)
  have hreadOnly := spells_setting "read_only" _ _ (by decide) (shows_writeBoolean s.readOnly)
  exact (hheading.append hpath).append hreadOnly

theorem spells_hostChars (hosts : HostNames) :
    Spells (hostChars hosts) (hostEntries hosts).statements := by
  unfold hostChars hostEntries Entries.statements
  rw [List.map_map]
  apply spells_flatMap
  intro e
  exact spells_assignment e.1 _ _ (shows_writeString e.2)

theorem spells_viewChars (s : ViewSettings) (h : (s.pollInterval : Int) ≤ maxId) :
    Spells (viewChars s) (viewStatements s) := by
  have hheading := spells_heading [] "view" "view" (by decide) (by decide)
  have hresolve := spells_setting "resolve_address" _ _ (by decide) (shows_writeBoolean s.resolve)
  have hinterval := spells_setting "poll_interval_ms" _ _ (by decide)
    (shows_decimal s.pollInterval h)
  have hhosts := spells_heading ["view"] "host_names" "view.host_names" (by decide) (by decide)
  exact (((hheading.append hresolve).append hinterval).append (spells_blank.append hhosts)).append
    (spells_hostChars s.hosts)

theorem spells_loggingChars (s : LoggingSettings) :
    Spells (loggingChars s) (loggingStatements s) := by
  have hheading := spells_heading [] "log" "log" (by decide) (by decide)
  have hlevel := spells_setting "level" _ _ (by decide) (shows_writeString s.level)
  exact hheading.append hlevel

/-- The text of settings spells their statements. -/
theorem spells_chars (s : Settings) (h : (s.view.pollInterval : Int) ≤ maxId) :
    Spells s.chars s.statements :=
  ((spells_storeChars s.store).append (spells_blank.append (spells_viewChars s.view h))).append
    (spells_blank.append (spells_loggingChars s.logging))

/-! What is read. -/

/-- The text is read as the entries. -/
theorem parse?_chars (s : Settings) (h : (s.view.pollInterval : Int) ≤ maxId) :
    parse? (String.ofList s.chars) = some s.entries := by
  have hstatements : statements? (String.ofList s.chars) = some s.statements :=
    statements?_of_spells _ _ (spells_chars s h)
  unfold parse?
  rw [hstatements]
  show (Document.ofStatements? s.statements).bind _ = _
  rw [ofStatements?_statements]
  rfl

/-- Written settings are read back, and judged like any others. -/
theorem ofText_chars (s : Settings) (h : (s.view.pollInterval : Int) ≤ maxId) :
    ofText (String.ofList s.chars) = s.validated := by
  unfold ofText ofDocument
  rw [parse?_chars s h]
  simp only
  rw [ofEntries?_entries]

/-- Settings whose interval is a number of 64 bits with a sign can be written. Valid ones
are read from their text as they were, whatever characters their texts and the names and
addresses of hosts hold; the text of others is refused for the first thing wrong with
them. -/
theorem ofText_of_text? (s : Settings) (h : (s.view.pollInterval : Int) ≤ maxId) :
    ∃ text, s.text? = some text ∧
      (s.store.path ≠ "" → 0 < s.view.pollInterval → ofText text = .ok s) ∧
      (s.store.path = "" → ofText text = .error (.invalid .emptyPath)) ∧
      (s.store.path ≠ "" → s.view.pollInterval = 0 →
        ofText text = .error (.invalid .zeroInterval)) := by
  have hread := ofText_chars s h
  refine ⟨String.ofList s.chars, if_pos h, ?_, ?_, ?_⟩
  · intro hpath hpos
    rw [hread, validated, fault?, if_neg hpath, if_neg (Nat.ne_of_gt hpos)]
  · intro hpath
    rw [hread, validated, fault?, if_pos hpath]
  · intro hpath hzero
    rw [hread, validated, fault?, if_neg hpath, if_pos hzero]

/-- Settings in which quotes, dots, ends of lines and control characters stand wherever a
text may be, with the longest interval that can be written. -/
def hostile : Settings :=
  { store := ⟨"\"\"\"'''\\ \r\n\x00", true⟩
    view := ⟨true, 9223372036854775807, HostNames.ofList [("", ""), ("a.b", "\"''\t"),
      ("= \n[view]", "'''\x7f"), ("''\"", "# \\u0041")]⟩
    logging := ⟨"debug\nlevel = \"\""⟩ }

/-- The settings above come back as they were. Without a path or an interval they are
refused. -/
theorem ofText_of_text?_hostile :
    (∃ text, hostile.text? = some text ∧ ofText text = .ok hostile) ∧
      (∃ text, { hostile with store := ⟨"", true⟩ : Settings }.text? = some text ∧
        ofText text = .error (.invalid .emptyPath)) ∧
      (∃ text, { hostile with view := ⟨true, 0, hostile.view.hosts⟩ : Settings }.text? = some text ∧
        ofText text = .error (.invalid .zeroInterval)) := by
  refine ⟨?_, ?_, ?_⟩
  · obtain ⟨text, htext, hvalid, -, -⟩ := ofText_of_text? hostile (by decide)
    exact ⟨text, htext, hvalid (by decide) (by decide)⟩
  · obtain ⟨text, htext, -, hpath, -⟩ :=
      ofText_of_text? { hostile with store := ⟨"", true⟩ } (by decide)
    exact ⟨text, htext, hpath rfl⟩
  · obtain ⟨text, htext, -, -, hzero⟩ :=
      ofText_of_text? { hostile with view := ⟨true, 0, hostile.view.hosts⟩ } (by decide)
    exact ⟨text, htext, hzero (by decide) rfl⟩

end Settings

end ConnectionLog
