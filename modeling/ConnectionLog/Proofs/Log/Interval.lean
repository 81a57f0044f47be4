import ConnectionLog.Proofs.Log.Writes
import ConnectionLog.Proofs.Span.Ids
import Mathlib.Data.List.Induction

/-!
The identifiers that a log holds have no gaps: they go down by one from the
largest ever used. Appending goes on from there, pruning takes from the low end,
and clearing leaves only the memory of the largest. So the bounds of a log say
which connections it holds, and neither bound ever moves down.
-/
namespace ConnectionLog.Log

/-- The identifiers of entries, newest first, go down by one from a number. -/
inductive Descends : Nat → List Entry → Prop
  | nil (n : Nat) : Descends n []
  | cons {n : Nat} {e : Entry} {rest : List Entry} :
      e.id = (n : Int) + 1 → Descends n rest → Descends (n + 1) (e :: rest)

theorem Descends.length_le (n : Nat) (entries : List Entry) (h : Descends n entries) :
    entries.length ≤ n := by
  induction h with
  | nil n => exact Nat.zero_le n
  | cons hid hrest ih =>
    rw [List.length_cons]
    omega

/-- The identifiers are an interval that ends in the number they go down from. -/
theorem Descends.ids_eq (n : Nat) (entries : List Entry) (h : Descends n entries) :
    entries.map (·.id) =
      (Span.idsFrom ((n : Int) - entries.length + 1) entries.length).reverse := by
  induction h with
  | nil n => rfl
  | @cons n e rest hid hrest ih =>
    have hfirst : ((n + 1 : Nat) : Int) - ((rest.length + 1 : Nat) : Int) + 1 =
        (n : Int) - rest.length + 1 := by omega
    have hlast : (n : Int) - rest.length + 1 + (rest.length : Int) = e.id := by omega
    rw [List.map_cons, ih, List.length_cons, hfirst, Span.idsFrom_add, hlast,
      List.reverse_append]
    simp [Span.idsFrom_succ]

theorem Descends.mem_iff (n : Nat) (entries : List Entry) (h : Descends n entries)
    (id : Int) :
    (∃ e ∈ entries, e.id = id) ↔ (n : Int) - entries.length < id ∧ id ≤ n := by
  have hmem : (∃ e ∈ entries, e.id = id) ↔ id ∈ entries.map (·.id) := List.mem_map.symm
  rw [hmem, h.ids_eq, List.mem_reverse, Span.mem_idsFrom]
  omega

theorem Descends.id_le (n : Nat) (entries : List Entry) (h : Descends n entries)
    (e : Entry) (he : e ∈ entries) : e.id ≤ n :=
  ((h.mem_iff n entries e.id).mp ⟨e, he, rfl⟩).2

/-- Entries below a bound are all behind those that are not. -/
theorem Descends.filter (n : Nat) (entries : List Entry) (h : Descends n entries)
    (before : Int) : Descends n (entries.filter fun e => before ≤ e.id) := by
  induction h with
  | nil n => exact Descends.nil n
  | @cons n e rest hid hrest ih =>
    by_cases hkeep : before ≤ e.id
    · rw [List.filter_cons_of_pos (by simpa using hkeep)]
      exact Descends.cons hid ih
    · have hnone : (e :: rest).filter (fun e => before ≤ e.id) = [] := by
        rw [List.filter_eq_nil_iff]
        intro e' he'
        rcases List.mem_cons.mp he' with rfl | hmem
        · simpa using hkeep
        · have hle := hrest.id_le n rest e' hmem
          simp only [decide_eq_true_eq]
          omega
      rw [hnone]
      exact Descends.nil (n + 1)

structure Unbroken (log : Log) : Prop where
  descends : Descends log.lastId log.entries
  bounded : (log.lastId : Int) ≤ maxId

/-- The lowest identifier that is held, or the next one to be given out if none is. -/
def low (log : Log) : Int := (log.lastId : Int) - log.entries.length + 1

theorem low_le_lastId_iff (log : Log) : log.low ≤ log.lastId ↔ log.entries ≠ [] := by
  rw [ne_eq, ← List.length_eq_zero_iff, low]
  omega

theorem one_le_low (log : Log) (h : log.Unbroken) : 1 ≤ log.low := by
  have hle := h.descends.length_le log.lastId log.entries
  rw [low]
  omega

/-- The connections that are there are those from the lowest identifier to the largest
ever used. -/
theorem mem_iff_low (log : Log) (h : log.Unbroken) (id : Int) :
    (∃ e ∈ log.entries, e.id = id) ↔ log.low ≤ id ∧ id ≤ log.lastId := by
  rw [h.descends.mem_iff log.lastId log.entries id, low]
  omega

theorem empty_unbroken : empty.Unbroken := ⟨Descends.nil 0, by decide⟩

/-- No write makes a gap. -/
theorem write_unbroken (log log' : Log) (w : Write) (outcome : Outcome) (h : log.Unbroken)
    (hw : log.write w = .ok (outcome, log')) : log'.Unbroken := by
  rcases write_cases log log' w outcome hw with
    ⟨path, -, -, rfl⟩ | ⟨c, -, hid, -, rfl⟩ | ⟨before, -, -, rfl⟩ | ⟨-, -, rfl⟩
  · refine ⟨?_, ?_⟩
    · rw [register_lastId, register_entries]
      exact h.descends
    · rw [register_lastId]
      exact h.bounded
  · exact ⟨Descends.cons rfl h.descends, by simpa using hid⟩
  · exact ⟨h.descends.filter log.lastId log.entries before, h.bounded⟩
  · exact ⟨Descends.nil log.lastId, h.bounded⟩

theorem after_unbroken (log : Log) (w : Write) (h : log.Unbroken) : (log.after w).Unbroken :=
  after_induct Unbroken log w h fun outcome log' => write_unbroken log log' w outcome h

theorem run_unbroken (writes : List Write) : (run writes).Unbroken := by
  induction writes using List.reverseRecOn with
  | nil => exact empty_unbroken
  | append_singleton writes w ih =>
    rw [run_append_singleton]
    exact after_unbroken (run writes) w ih

/-- Neither bound moves down. -/
theorem write_bounds (log log' : Log) (w : Write) (outcome : Outcome)
    (hw : log.write w = .ok (outcome, log')) :
    log.low ≤ log'.low ∧ log.lastId ≤ log'.lastId := by
  rcases write_cases log log' w outcome hw with
    ⟨path, -, -, rfl⟩ | ⟨c, -, -, -, rfl⟩ | ⟨before, -, -, rfl⟩ | ⟨-, -, rfl⟩
  · rw [low, low, register_lastId, register_entries]
    exact ⟨Int.le_refl _, Nat.le_refl _⟩
  · simp only [low, List.length_cons]
    omega
  · have hlen := List.length_filter_le (fun e : Entry => decide (before ≤ e.id)) log.entries
    simp only [low]
    omega
  · simp only [low, List.length_nil]
    omega

theorem span_of_nil (log : Log) (h : log.entries = []) : log.span = Span.empty := by
  simp [span, ids, h]

/-- The bounds of a log that holds something are the lowest identifier it holds and
the largest ever used. -/
theorem span_of_ne_nil (log : Log) (hlog : log.Unbroken) (h : log.entries ≠ []) :
    log.span = ⟨log.low, log.lastId⟩ := by
  have hlen : 0 < log.entries.length := List.length_pos_of_ne_nil h
  have hids : log.ids = (Span.idsFrom log.low log.entries.length).reverse :=
    hlog.descends.ids_eq log.lastId log.entries
  have hmin : log.ids.min? = some log.low := by
    rw [List.min?_eq_some_iff, hids]
    simp only [List.mem_reverse, Span.mem_idsFrom]
    exact ⟨by omega, fun id hid => hid.1⟩
  have hmax : log.ids.max? = some (log.lastId : Int) := by
    rw [List.max?_eq_some_iff, hids]
    simp only [List.mem_reverse, Span.mem_idsFrom, low]
    exact ⟨by omega, fun id hid => by omega⟩
  rw [span, hmin, hmax]

theorem span_countable (log : Log) (h : log.Unbroken) : log.span.Countable := by
  by_cases hnil : log.entries = []
  · rw [span_of_nil log hnil]
    exact ⟨by decide, by decide, by decide⟩
  · have hfirst := one_le_low log h
    rw [span_of_ne_nil log h hnil]
    refine ⟨?_, ?_, h.bounded⟩
    · simp only [minId]
      omega
    · simp only
      omega

/-- The table has a row for every connection. -/
theorem span_rows (log : Log) (h : log.Unbroken) : log.span.rows = log.entries.length := by
  by_cases hnil : log.entries = []
  · rw [span_of_nil log hnil, hnil]
    rfl
  · have hlen : 0 < log.entries.length := List.length_pos_of_ne_nil hnil
    have hle := h.descends.length_le log.lastId log.entries
    have hcount := span_countable log h
    rw [span_of_ne_nil log h hnil] at hcount ⊢
    have hrows := Span.rows_of_countable ⟨log.low, log.lastId⟩ hcount (by simp only; omega)
    simp only [low] at hrows
    simp only [low]
    omega

/-- The rows of the table are the connections that are there, oldest first. -/
theorem ids_reverse (log : Log) (h : log.Unbroken) : log.ids.reverse = log.span.ids := by
  rw [Span.ids, span_rows log h]
  by_cases hnil : log.entries = []
  · rw [ids, hnil]
    rfl
  · rw [ids, h.descends.ids_eq log.lastId log.entries, List.reverse_reverse,
      span_of_ne_nil log h hnil]
    rfl

/-- Every row of the table stands for a connection that is there. -/
theorem entry?_of_row (log : Log) (h : log.Unbroken) (row : Nat) (hrow : row < log.span.rows) :
    log.span.id? row = some (log.span.first + row) ∧
      ∃ e, log.entry? (log.span.first + row) = some e := by
  have hlen := hrow
  rw [span_rows log h] at hlen
  have hne : log.entries ≠ [] := List.ne_nil_of_length_pos (by omega)
  have hfirst : log.span.first = log.low := by rw [span_of_ne_nil log h hne]
  have hmax := h.bounded
  have hpos := one_le_low log h
  have hlow : log.low = (log.lastId : Int) - log.entries.length + 1 := rfl
  refine ⟨?_, ?_⟩
  · rw [Span.id?_eq_some_iff, hfirst]
    exact ⟨hrow, by omega, by omega, rfl⟩
  · have hmem := (mem_iff_low log h (log.low + row)).mpr (by omega)
    obtain ⟨e, he, hid⟩ := hmem
    rw [hfirst, entry?]
    cases hfind : log.entries.find? (·.id = log.low + row) with
    | some e' => exact ⟨e', rfl⟩
    | none =>
      have hnone := List.find?_eq_none.mp hfind e he
      simp only [hid, decide_true, not_true_eq_false] at hnone

/-- The identifiers that a write gives out. Those of applications do not count. -/
def assigned : Write → Outcome → List Int
  | .append _, .id id => [id]
  | _, _ => []

structure Remembers (log : Log) (given : List Int) : Prop where
  unbroken : log.Unbroken
  le_last : ∀ id ∈ given, id ≤ log.lastId
  last_mem : log.lastId ≠ 0 → (log.lastId : Int) ∈ given

theorem empty_remembers : empty.Remembers [] :=
  ⟨empty_unbroken, nofun, fun h => absurd rfl h⟩

/-- The largest identifier is remembered through every write. -/
theorem write_remembers (log log' : Log) (w : Write) (outcome : Outcome) (given : List Int)
    (h : log.Remembers given) (hw : log.write w = .ok (outcome, log')) :
    log'.Remembers (assigned w outcome ++ given) := by
  have hunbroken := write_unbroken log log' w outcome h.unbroken hw
  rcases write_cases log log' w outcome hw with
    ⟨path, rfl, rfl, rfl⟩ | ⟨c, rfl, -, rfl, rfl⟩ | ⟨before, rfl, rfl, rfl⟩ | ⟨rfl, rfl, rfl⟩
  · refine ⟨hunbroken, ?_, ?_⟩
    · rw [register_lastId]
      exact h.le_last
    · rw [register_lastId]
      exact h.last_mem
  · refine ⟨hunbroken, ?_, ?_⟩
    · intro id hid
      simp only [assigned, List.cons_append, List.nil_append, List.mem_cons] at hid
      rcases hid with rfl | hid
      · exact Int.le_refl _
      · have hle := h.le_last id hid
        simp only
        omega
    · intro _
      exact List.mem_cons_self
  · exact ⟨hunbroken, h.le_last, h.last_mem⟩
  · exact ⟨hunbroken, h.le_last, h.last_mem⟩

end ConnectionLog.Log
