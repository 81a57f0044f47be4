import ConnectionLog.Settings.Reading
import Mathlib.Data.List.Basic
import Mathlib.Logic.ExistsUnique

/-!
Settings are a document laid over the defaults. Every setting is looked for under its own
name in the table of its section, by itself: what it is depends on no other setting and on
nothing the settings do not know. Values of other types are refused, with one exception: a
date is taken for a table of host names.
-/
namespace ConnectionLog

open Toml

namespace Toml.Value

theorem asString?_eq_some_iff (v : Value) (text : String) :
    v.asString? = some text ↔ v = .string text := by
  cases v <;> simp [asString?]

theorem asBoolean?_eq_some_iff (v : Value) (b : Bool) :
    v.asBoolean? = some b ↔ v = .boolean b := by
  cases v <;> simp [asBoolean?]

theorem asNat?_eq_some_iff (v : Value) (n : Nat) : v.asNat? = some n ↔ v = .integer n := by
  cases v with
  | integer i =>
    simp only [asNat?, integer.injEq]
    split
    · rw [Option.some.injEq]
      omega
    · simp only [reduceCtorEq, false_iff]
      omega
  | _ => simp [asNat?]

theorem mapM_asString?_eq_some_iff (entries : Entries) (names : List (String × String)) :
    (entries.mapM fun e => (asString? e.2).map (e.1, ·)) = some names ↔
      entries = names.map fun e => (e.1, .string e.2) := by
  constructor
  · intro h
    induction entries generalizing names with
    | nil =>
      obtain rfl := Option.some.inj h
      rfl
    | cons e entries ih =>
      rw [List.mapM_cons] at h
      obtain ⟨name, hname, h⟩ := Option.bind_eq_some_iff.mp h
      obtain ⟨text, htext, rfl⟩ := Option.map_eq_some_iff.mp hname
      obtain ⟨rest, hrest, hnames⟩ := Option.bind_eq_some_iff.mp h
      obtain rfl := Option.some.inj hnames
      rw [List.map_cons, ← ih rest hrest, ← (asString?_eq_some_iff e.2 text).mp htext]
  · rintro rfl
    induction names with
    | nil => rfl
    | cons name names ih =>
      rw [List.map_cons, List.mapM_cons, ih]
      rfl

/-- A date is read as a table of one name. -/
theorem asHosts?_eq_some_iff (v : Value) (hosts : HostNames) :
    v.asHosts? = some hosts ↔
      (∃ form names, v = .table form (names.map fun e => (e.1, .string e.2)) ∧
        HostNames.ofList names = hosts) ∨
      ∃ date, v = .dateTime date ∧ HostNames.ofList [(Fields.dateTimeKey, date)] = hosts := by
  cases v with
  | table form entries =>
    simp only [asHosts?, Fields.ofValue?, Option.map_eq_some_iff, mapM_asString?_eq_some_iff,
      table.injEq, reduceCtorEq, false_and, exists_false, or_false]
    constructor
    · rintro ⟨names, hentries, hhosts⟩
      exact ⟨form, names, ⟨rfl, hentries⟩, hhosts⟩
    · rintro ⟨_, names, ⟨-, hentries⟩, hhosts⟩
      exact ⟨names, hentries, hhosts⟩
  | dateTime date =>
    simp [asHosts?, Fields.ofValue?, asString?]
  | _ => simp [asHosts?, Fields.ofValue?]

end Toml.Value

namespace Settings

inductive Key where
  | path
  | readOnly
  | resolve
  | pollInterval
  | hosts
  | level
deriving DecidableEq

namespace Key

def heading : Key → String
  | path | readOnly => "store"
  | resolve | pollInterval | hosts => "view"
  | level => "log"

def name : Key → String
  | path => "path"
  | readOnly => "read_only"
  | resolve => "resolve_address"
  | pollInterval => "poll_interval_ms"
  | hosts => "host_names"
  | level => "level"

abbrev Content : Key → Type
  | path | level => String
  | readOnly | resolve => Bool
  | pollInterval => Nat
  | hosts => HostNames

def get (s : Settings) : (k : Key) → k.Content
  | path => s.store.path
  | readOnly => s.store.readOnly
  | resolve => s.view.resolve
  | pollInterval => s.view.pollInterval
  | hosts => s.view.hosts
  | level => s.logging.level

def value? (entries : Entries) (k : Key) : Option Value :=
  match entries.lookup k.heading with
  | some (.table _ fields) => fields.lookup k.name
  | _ => none

/-- A value of the type of a setting, and what the setting is by it. -/
inductive Means : (k : Key) → Value → k.Content → Prop where
  | path (text : String) : Means path (.string text) text
  | readOnly (b : Bool) : Means readOnly (.boolean b) b
  | resolve (b : Bool) : Means resolve (.boolean b) b
  | pollInterval (n : Nat) : Means pollInterval (.integer n) n
  | hosts (form : Form) (names : List (String × String)) :
      Means hosts (.table form (names.map fun e => (e.1, .string e.2))) (HostNames.ofList names)
  | level (text : String) : Means level (.string text) text

def IsOfType (k : Key) (v : Value) : Prop := ∃ content, Means k v content

/-- What is taken for a value of the type of a setting. -/
inductive Takes : (k : Key) → Value → k.Content → Prop where
  | meant {k : Key} {v : Value} {content : k.Content} (h : Means k v content) : Takes k v content
  | dated (date : String) :
      Takes hosts (.dateTime date) (HostNames.ofList [(Fields.dateTimeKey, date)])

def read : (k : Key) → Value → Option k.Content
  | path | level => Value.asString?
  | readOnly | resolve => Value.asBoolean?
  | pollInterval => Value.asNat?
  | hosts => Value.asHosts?

/-- A setting is read from exactly the values that are taken for it. -/
theorem read_eq_some_iff (k : Key) (v : Value) (content : k.Content) :
    k.read v = some content ↔ k.Takes v content := by
  constructor
  · intro h
    cases k with
    | path =>
      rw [(Value.asString?_eq_some_iff v content).mp h]
      exact .meant (.path content)
    | readOnly =>
      rw [(Value.asBoolean?_eq_some_iff v content).mp h]
      exact .meant (.readOnly content)
    | resolve =>
      rw [(Value.asBoolean?_eq_some_iff v content).mp h]
      exact .meant (.resolve content)
    | pollInterval =>
      rw [(Value.asNat?_eq_some_iff v content).mp h]
      exact .meant (.pollInterval content)
    | hosts =>
      rcases (Value.asHosts?_eq_some_iff v content).mp h with
        ⟨form, names, rfl, rfl⟩ | ⟨date, rfl, rfl⟩
      · exact .meant (.hosts form names)
      · exact .dated date
    | level =>
      rw [(Value.asString?_eq_some_iff v content).mp h]
      exact .meant (.level content)
  · rintro (⟨_ | _ | _ | _ | ⟨form, names⟩ | _⟩ | ⟨date⟩)
    · rfl
    · rfl
    · rfl
    · exact (Value.asNat?_eq_some_iff _ _).mpr rfl
    · exact (Value.asHosts?_eq_some_iff _ _).mpr (.inl ⟨form, names, rfl, rfl⟩)
    · rfl
    · exact (Value.asHosts?_eq_some_iff _ _).mpr (.inr ⟨date, rfl, rfl⟩)

end Key

def HasTables (entries : Entries) : Prop :=
  ∀ k : Key, entries.lookup k.heading = none ∨
    ∃ form fields, entries.lookup k.heading = some (.table form fields)

theorem settingOr_eq_some_iff {α : Type} (default : α) (read : Value → Option α)
    (v? : Option Value) (content : α) :
    settingOr default read v? = some content ↔
      match v? with
      | some v => read v = some content
      | none => content = default := by
  cases v? with
  | some v => rfl
  | none => exact Option.some_inj.trans eq_comm

def Key.readOr (entries : Entries) (k : Key) : Option k.Content :=
  settingOr (k.get default) k.read (k.value? entries)

section

variable {entries : Entries}

theorem Key.readOr_of_none (k : Key) (h : entries.lookup k.heading = none) :
    k.readOr entries = some (k.get default) := by
  rw [readOr, value?, h]
  rfl

theorem Key.readOr_of_table (k : Key) (form : Form) (fields : Entries)
    (h : entries.lookup k.heading = some (.table form fields)) :
    k.readOr entries = settingOr (k.get default) k.read (fields.lookup k.name) := by
  rw [readOr, value?, h]

/-! The defaults of a section that is not there are those of an empty one. -/

theorem asStore?_eq (h : HasTables entries) :
    settingOr .default Value.asStore? (entries.lookup "store") = (do
      let path ← Key.path.readOr entries
      let readOnly ← Key.readOnly.readOr entries
      return ⟨path, readOnly⟩) := by
  rcases h .path with hlookup | ⟨form, fields, hlookup⟩
  · rw [Key.path.readOr_of_none hlookup, Key.readOnly.readOr_of_none hlookup,
      show entries.lookup "store" = none from hlookup]
    rfl
  · rw [Key.path.readOr_of_table form fields hlookup,
      Key.readOnly.readOr_of_table form fields hlookup,
      show entries.lookup "store" = some (.table form fields) from hlookup]
    rfl

theorem asView?_eq (h : HasTables entries) :
    settingOr .default Value.asView? (entries.lookup "view") = (do
      let resolve ← Key.resolve.readOr entries
      let pollInterval ← Key.pollInterval.readOr entries
      let hosts ← Key.hosts.readOr entries
      return ⟨resolve, pollInterval, hosts⟩) := by
  rcases h .resolve with hlookup | ⟨form, fields, hlookup⟩
  · rw [Key.resolve.readOr_of_none hlookup, Key.pollInterval.readOr_of_none hlookup,
      Key.hosts.readOr_of_none hlookup, show entries.lookup "view" = none from hlookup]
    rfl
  · rw [Key.resolve.readOr_of_table form fields hlookup,
      Key.pollInterval.readOr_of_table form fields hlookup,
      Key.hosts.readOr_of_table form fields hlookup,
      show entries.lookup "view" = some (.table form fields) from hlookup]
    rfl

theorem asLogging?_eq (h : HasTables entries) :
    settingOr .default Value.asLogging? (entries.lookup "log") = (do
      let level ← Key.level.readOr entries
      return ⟨level⟩) := by
  rcases h .level with hlookup | ⟨form, fields, hlookup⟩
  · rw [Key.level.readOr_of_none hlookup, show entries.lookup "log" = none from hlookup]
    rfl
  · rw [Key.level.readOr_of_table form fields hlookup,
      show entries.lookup "log" = some (.table form fields) from hlookup]
    rfl

/-- Settings are read key by key, each by itself. -/
theorem ofEntries?_eq_some_iff (h : HasTables entries) (s : Settings) :
    ofEntries? entries = some s ↔ ∀ k : Key, k.readOr entries = some (k.get s) := by
  rw [ofEntries?, asStore?_eq h, asView?_eq h, asLogging?_eq h]
  constructor
  · intro hread
    simp only [bind, Option.bind_eq_some_iff, pure, Option.some.injEq] at hread
    obtain ⟨store, ⟨path, hpath, readOnly, hreadOnly, rfl⟩, view, ⟨resolve, hresolve,
      pollInterval, hinterval, hosts, hhosts, rfl⟩, logging, ⟨level, hlevel, rfl⟩, rfl⟩ := hread
    intro k
    cases k with
    | path => exact hpath
    | readOnly => exact hreadOnly
    | resolve => exact hresolve
    | pollInterval => exact hinterval
    | hosts => exact hhosts
    | level => exact hlevel
  · intro hread
    rw [hread .path, hread .readOnly, hread .resolve, hread .pollInterval, hread .hosts,
      hread .level]
    rfl

/-- If every setting can be read by itself, then all of them together. -/
theorem exists_ofEntries? (h : HasTables entries)
    (hread : ∀ k : Key, ∃ content, k.readOr entries = some content) :
    ∃ s, ofEntries? entries = some s := by
  choose content hcontent using hread
  refine ⟨⟨⟨content .path, content .readOnly⟩,
    ⟨content .resolve, content .pollInterval, content .hosts⟩, ⟨content .level⟩⟩, ?_⟩
  rw [ofEntries?_eq_some_iff h]
  intro k
  cases k with
  | path => exact hcontent .path
  | readOnly => exact hcontent .readOnly
  | resolve => exact hcontent .resolve
  | pollInterval => exact hcontent .pollInterval
  | hosts => exact hcontent .hosts
  | level => exact hcontent .level

end

/-- Settings that are for every key what the document has for it, as `reading` says, and
the default where the document has nothing. -/
def LaidOver (reading : (k : Key) → Value → k.Content → Prop) (entries : Entries)
    (s : Settings) : Prop :=
  ∀ k : Key,
    match k.value? entries with
    | some v => reading k v (k.get s)
    | none => k.get s = k.get default

structure Judged (s : Settings) (answer : Except SettingsError Settings) : Prop where
  returned : answer = .ok s ↔ s.store.path ≠ "" ∧ s.view.pollInterval ≠ 0
  emptyPath : s.store.path = "" → answer = .error (.invalid .emptyPath)
  zeroInterval : s.store.path ≠ "" → s.view.pollInterval = 0 →
    answer = .error (.invalid .zeroInterval)

structure IsOverlay (entries : Entries) (answer : Except SettingsError Settings) : Prop where
  single : (∀ k v, Key.value? entries k = some v → k.IsOfType v) →
    ∃! s, LaidOver Key.Means entries s
  judged : ∀ s, LaidOver Key.Means entries s → Judged s answer
  refused : (∃ k v, Key.value? entries k = some v ∧ ¬ k.IsOfType v) → answer = .error .malformed

/-- A document in which only the table of host names is of the wrong type, and a date. -/
def IsDated (entries : Entries) : Prop :=
  (∃ date, Key.hosts.value? entries = some (.dateTime date)) ∧
    ∀ k v, Key.value? entries k = some v → k ≠ .hosts → k.IsOfType v

theorem validated_judged (s : Settings) : Judged s s.validated where
  returned := by
    by_cases hpath : s.store.path = ""
    · simp [validated, fault?, hpath]
    · by_cases hzero : s.view.pollInterval = 0
      · simp [validated, fault?, hpath, hzero]
      · simp [validated, fault?, hpath, hzero]
  emptyPath := by
    intro hpath
    rw [validated, fault?, if_pos hpath]
  zeroInterval := by
    intro hpath hzero
    rw [validated, fault?, if_neg hpath, if_pos hzero]

theorem Key.Means.of_takes {k : Key} {v : Value} {content : k.Content} (h : k.Takes v content)
    (htype : k.IsOfType v) : k.Means v content := by
  cases h with
  | meant h => exact h
  | dated date =>
    obtain ⟨_, hmeans⟩ := htype
    cases hmeans

/-- What is meant and what is taken differ only in values of a wrong type. -/
theorem laidOver_means_iff (entries : Entries) (s : Settings) :
    LaidOver Key.Means entries s ↔ LaidOver Key.Takes entries s ∧
      ∀ k v, Key.value? entries k = some v → k.IsOfType v := by
  constructor
  · intro h
    refine ⟨fun k => ?_, fun k v hv => ?_⟩
    · have hk := h k
      cases hv : k.value? entries with
      | none => simpa only [hv] using hk
      | some v => exact .meant (by simpa only [hv] using hk)
    · exact ⟨k.get s, by simpa only [hv] using h k⟩
  · rintro ⟨h, htype⟩ k
    have hk := h k
    cases hv : k.value? entries with
    | none => simpa only [hv] using hk
    | some v => exact .of_takes (by simpa only [hv] using hk) (htype k v hv)

theorem ofEntries?_eq_some_iff_laidOver {entries : Entries} (h : HasTables entries)
    (s : Settings) : ofEntries? entries = some s ↔ LaidOver Key.Takes entries s := by
  rw [ofEntries?_eq_some_iff h]
  refine forall_congr' fun k => ?_
  rw [Key.readOr, settingOr_eq_some_iff]
  cases k.value? entries with
  | none => rfl
  | some v => exact k.read_eq_some_iff v (k.get s)

/-- Settings that are laid over the defaults are judged. -/
theorem ofDocument_judged {entries : Entries} (h : HasTables entries) (s : Settings)
    (hs : LaidOver Key.Takes entries s) : Judged s (ofDocument entries) := by
  rw [ofDocument, (ofEntries?_eq_some_iff_laidOver h s).mpr hs]
  exact s.validated_judged

/-- A value that is not taken leaves no settings. -/
theorem ofDocument_malformed {entries : Entries} (h : HasTables entries) (k : Key) (v : Value)
    (hv : k.value? entries = some v) (hnone : ∀ content, ¬ k.Takes v content) :
    ofDocument entries = .error .malformed := by
  cases hs : ofEntries? entries with
  | none => rw [ofDocument, hs]
  | some s =>
    have hk := (ofEntries?_eq_some_iff_laidOver h s).mp hs k
    rw [hv] at hk
    exact absurd hk (hnone _)

theorem exists_laidOver {entries : Entries} (h : HasTables entries)
    (htaken : ∀ k v, Key.value? entries k = some v → ∃ content, k.Takes v content) :
    ∃ s, LaidOver Key.Takes entries s := by
  have hread (k : Key) : ∃ content, k.readOr entries = some content := by
    unfold Key.readOr
    cases hv : k.value? entries with
    | none => exact ⟨_, rfl⟩
    | some v =>
      obtain ⟨content, hcontent⟩ := htaken k v hv
      exact ⟨content, (k.read_eq_some_iff v content).mpr hcontent⟩
  obtain ⟨s, hs⟩ := exists_ofEntries? h hread
  exact ⟨s, (ofEntries?_eq_some_iff_laidOver h s).mp hs⟩

/-- A document makes one set of settings at most. -/
theorem laidOver_unique {entries : Entries} (h : HasTables entries) {s s' : Settings}
    (hs : LaidOver Key.Takes entries s) (hs' : LaidOver Key.Takes entries s') : s' = s := by
  rw [← ofEntries?_eq_some_iff_laidOver h] at hs hs'
  exact Option.some.inj (hs'.symm.trans hs)

/-- Only a date is taken though it is of another type, and only for host names. -/
theorem Key.Takes.isOfType_or {k : Key} {v : Value} {content : k.Content} (h : k.Takes v content) :
    k.IsOfType v ∨ k = .hosts ∧ ∃ date, v = .dateTime date := by
  cases h with
  | meant h => exact .inl ⟨content, h⟩
  | dated date => exact .inr ⟨rfl, date, rfl⟩

theorem Judged.ne_malformed {s : Settings} {answer : Except SettingsError Settings}
    (h : Judged s answer) : answer ≠ .error .malformed := by
  by_cases hpath : s.store.path = ""
  · simp [h.emptyPath hpath]
  · by_cases hzero : s.view.pollInterval = 0
    · simp [h.zeroInterval hpath hzero]
    · simp [h.returned.mpr ⟨hpath, hzero⟩]

/-- A document that only dates its host names is taken all the same. -/
theorem IsDated.exists_laidOver {entries : Entries} (hdated : IsDated entries)
    (h : HasTables entries) : ∃ s, LaidOver Key.Takes entries s := by
  obtain ⟨⟨date, hdate⟩, hothers⟩ := hdated
  refine Settings.exists_laidOver h fun k v hv => ?_
  by_cases hk : k = .hosts
  · subst hk
    obtain rfl := Option.some.inj (hdate.symm.trans hv)
    exact ⟨_, .dated date⟩
  · obtain ⟨content, hmeans⟩ := hothers k v hv hk
    exact ⟨content, .meant hmeans⟩

theorem not_isOfType_dated (date : String) : ¬ Key.hosts.IsOfType (.dateTime date) := by
  rintro ⟨content, hmeans⟩
  cases hmeans

/-- A value of a wrong type is refused unless the document only dates its host names. -/
theorem ofDocument_refused {entries : Entries} (h : HasTables entries)
    (hdated : ¬ IsDated entries) (k : Key) (v : Value) (hv : k.value? entries = some v)
    (hwrong : ¬ k.IsOfType v) : ofDocument entries = .error .malformed := by
  by_cases hothers : ∀ k v, Key.value? entries k = some v → k ≠ .hosts → k.IsOfType v
  · refine ofDocument_malformed h k v hv fun content htaken => ?_
    rcases htaken.isOfType_or with htype | ⟨rfl, date, rfl⟩
    · exact hwrong htype
    · exact hdated ⟨⟨date, hv⟩, hothers⟩
  · -- Something else is wrong, and it is no table of host names.
    simp only [Classical.not_forall] at hothers
    obtain ⟨k', v', hv', hk', hwrong'⟩ := hothers
    refine ofDocument_malformed h k' v' hv' fun content htaken => ?_
    rcases htaken.isOfType_or with htype | ⟨hhosts, -⟩
    · exact hwrong' htype
    · exact hk' hhosts

/-- Any document that does not only date its host names is laid over the defaults. -/
theorem ofDocument_isOverlay {entries : Entries} (h : HasTables entries)
    (hdated : ¬ IsDated entries) : IsOverlay entries (ofDocument entries) where
  single := by
    intro htype
    obtain ⟨s, hs⟩ := exists_laidOver h fun k v hv => (htype k v hv).imp fun _ => .meant
    refine ⟨s, (laidOver_means_iff entries s).mpr ⟨hs, htype⟩, fun s' hs' => ?_⟩
    exact laidOver_unique h hs ((laidOver_means_iff entries s').mp hs').1
  judged := fun s hs => ofDocument_judged h s ((laidOver_means_iff entries s).mp hs).1
  refused := fun ⟨k, v, hv, hwrong⟩ => ofDocument_refused h hdated k v hv hwrong

/-- Unless a date stands where the table of host names should be, and nothing else is wrong,
the settings in a document are laid over the defaults, and a value of the wrong type is
refused. Such a date is taken for a name. -/
theorem ofText_isOverlay_iff (text : String) (entries : Entries)
    (hparse : parse? text = some entries) (h : HasTables entries) :
    (IsOverlay entries (ofText text) ↔ ¬ IsDated entries) ∧
      (IsDated entries → ∃! s, LaidOver Key.Takes entries s) ∧
      ∀ s, LaidOver Key.Takes entries s → Judged s (ofText text) := by
  have htext : ofText text = ofDocument entries := by
    rw [ofText, hparse]
  rw [htext]
  refine ⟨⟨?_, ofDocument_isOverlay h⟩, ?_, fun s hs => ofDocument_judged h s hs⟩
  · intro hoverlay hdated
    obtain ⟨s, hs⟩ := hdated.exists_laidOver h
    obtain ⟨date, hdate⟩ := hdated.1
    have hrefused := hoverlay.refused ⟨.hosts, _, hdate, not_isOfType_dated date⟩
    exact (ofDocument_judged h s hs).ne_malformed hrefused
  · intro hdated
    obtain ⟨s, hs⟩ := hdated.exists_laidOver h
    exact ⟨s, hs, fun s' hs' => laidOver_unique h hs hs'⟩

def partialText : String :=
  "colour = \"red\"\n[view]\npoll_interval_ms = 250\nhost_names.\"10.0.0.1\" = \"gate\"\n[log]\n"

def partialEntries : Entries :=
  [("colour", .string "red"),
    ("view", .table .header [("poll_interval_ms", .integer 250),
      ("host_names", .table .dotted [("10.0.0.1", .string "gate")])]),
    ("log", .table .header [])]

def datedText : String := "[view]\nhost_names = 1979-05-27\n"

def datedEntries : Entries :=
  [("view", .table .header [("host_names", .dateTime "1979-05-27")])]

theorem hasTables_partialEntries : HasTables partialEntries := by
  intro k
  cases k with
  | path | readOnly => exact .inl rfl
  | resolve | pollInterval | hosts | level => exact .inr ⟨_, _, rfl⟩

theorem hasTables_datedEntries : HasTables datedEntries := by
  intro k
  cases k with
  | path | readOnly | level => exact .inl rfl
  | resolve | pollInterval | hosts => exact .inr ⟨_, _, rfl⟩

/-- A document of which every section is missing, partial or empty. -/
theorem ofText_isOverlay_iff_partial :
    parse? partialText = some partialEntries ∧ HasTables partialEntries ∧
      IsOverlay partialEntries (ofText partialText) ∧
      ofText partialText = .ok ⟨.default, ⟨false, 250, HostNames.ofList [("10.0.0.1", "gate")]⟩,
        .default⟩ := by
  have hparse : parse? partialText = some partialEntries := by with_unfolding_all rfl
  have hdated : ¬ IsDated partialEntries := by
    rintro ⟨⟨date, hdate⟩, -⟩
    cases hdate
  obtain ⟨hoverlay, -, hjudged⟩ :=
    ofText_isOverlay_iff partialText partialEntries hparse hasTables_partialEntries
  refine ⟨hparse, hasTables_partialEntries, hoverlay.mpr hdated, ?_⟩
  refine (hjudged _ fun k => ?_).returned.mpr ⟨by decide, by decide⟩
  cases k with
  | path | readOnly | resolve | level => rfl
  | pollInterval => exact .meant (.pollInterval 250)
  | hosts => exact .meant (.hosts .dotted [("10.0.0.1", "gate")])

/-- The date is not refused, but becomes the name of a host. -/
theorem ofText_isOverlay_dated :
    parse? datedText = some datedEntries ∧ HasTables datedEntries ∧
      ofText datedText = .ok ⟨.default, ⟨false, 1000,
        HostNames.ofList [("$__toml_private_datetime", "1979-05-27")]⟩, .default⟩ ∧
      ¬ IsOverlay datedEntries (ofText datedText) := by
  have hparse : parse? datedText = some datedEntries := by with_unfolding_all rfl
  have htext : ofText datedText = .ok ⟨.default, ⟨false, 1000,
      HostNames.ofList [("$__toml_private_datetime", "1979-05-27")]⟩, .default⟩ := by
    rw [ofText, hparse]
    rfl
  refine ⟨hparse, hasTables_datedEntries, htext, fun hoverlay => ?_⟩
  have hrefused := hoverlay.refused ⟨.hosts, _, rfl, not_isOfType_dated _⟩
  rw [htext] at hrefused
  contradiction

end Settings

end ConnectionLog
