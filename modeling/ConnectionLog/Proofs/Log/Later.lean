import ConnectionLog.Proofs.Log.Lawful

/-!
A log and what it becomes over a run of writes. Identifiers are only given out upwards,
so what bears an old identifier later on is the old connection. The lower bound says which
of the old ones are left; and if neither bound is another one than before, then neither
has moved in between, and every record is what it was.
-/
namespace ConnectionLog.Log

def afterAll (log : Log) (writes : List Write) : Log := writes.foldl after log

theorem run_append (before more : List Write) :
    run (before ++ more) = (run before).afterAll more := List.foldl_append

theorem afterAll_append_singleton (log : Log) (writes : List Write) (w : Write) :
    log.afterAll (writes ++ [w]) = (log.afterAll writes).after w := by
  simp only [afterAll, List.foldl_append, List.foldl_cons, List.foldl_nil]

/-- What each of the writes keeps when it succeeds is kept by all of them. -/
theorem afterAll_induct (P : Log → Prop) (log : Log) (writes : List Write) (h : P log)
    (hw : ∀ w ∈ writes, ∀ log outcome log', P log → log.write w = .ok (outcome, log') →
      P log') : P (log.afterAll writes) := by
  induction writes using List.reverseRecOn with
  | nil => exact h
  | append_singleton writes w ih =>
    have hbefore := ih fun w' hw' => hw w' (List.mem_append_left [w] hw')
    rw [afterAll_append_singleton]
    exact after_induct P _ w hbefore fun outcome log' hwrite =>
      hw w (by simp) _ outcome log' hbefore hwrite

theorem afterAll_unbroken (log : Log) (writes : List Write) (h : log.Unbroken) :
    (log.afterAll writes).Unbroken :=
  afterAll_induct Unbroken log writes h fun w _ log outcome log' h =>
    write_unbroken log log' w outcome h

/-- Neither bound ever moves down. -/
theorem afterAll_bounds (log : Log) (writes : List Write) :
    log.low ≤ (log.afterAll writes).low ∧ log.lastId ≤ (log.afterAll writes).lastId := by
  refine afterAll_induct (fun log' => log.low ≤ log'.low ∧ log.lastId ≤ log'.lastId) log writes
    ⟨Int.le_refl _, Nat.le_refl _⟩ ?_
  intro w _ log₁ outcome log₂ h hwrite
  have hbounds := write_bounds log₁ log₂ w outcome hwrite
  omega

/-- An old identifier still stands for the old connection. -/
theorem mem_of_mem_afterAll (log : Log) (writes : List Write) (e : Entry)
    (he : e ∈ (log.afterAll writes).entries) (hid : e.id ≤ log.lastId) : e ∈ log.entries := by
  have h : log.lastId ≤ (log.afterAll writes).lastId ∧
      ∀ e ∈ (log.afterAll writes).entries, e.id ≤ log.lastId → e ∈ log.entries := by
    refine afterAll_induct (fun log' => log.lastId ≤ log'.lastId ∧
      ∀ e ∈ log'.entries, e.id ≤ log.lastId → e ∈ log.entries) log writes
      ⟨Nat.le_refl _, fun e he _ => he⟩ ?_
    intro w _ log₁ outcome log₂ ⟨hlast, hold⟩ hwrite
    refine ⟨Nat.le_trans hlast (write_bounds log₁ log₂ w outcome hwrite).2, ?_⟩
    intro e he hid
    rcases write_cases log₁ log₂ w outcome hwrite with
      ⟨path, -, -, rfl⟩ | ⟨c, -, -, -, rfl⟩ | ⟨before, -, -, rfl⟩ | ⟨-, -, rfl⟩
    · rw [register_entries] at he
      exact hold e he hid
    · rcases List.mem_cons.mp he with rfl | he
      · have hnew : (log₁.lastId : Int) + 1 ≤ log.lastId := hid
        omega
      · exact hold e he hid
    · exact hold e (List.mem_of_mem_filter he) hid
    · exact nomatch he
  exact h.2 e he hid

theorem Descends.eq_of_id_eq (n : Nat) (entries : List Entry) (h : Descends n entries)
    (e e' : Entry) (he : e ∈ entries) (he' : e' ∈ entries) (hid : e.id = e'.id) : e = e' := by
  induction h with
  | nil n => exact nomatch he
  | @cons n first rest hfirst hrest ih =>
    rcases List.mem_cons.mp he with rfl | hmem <;> rcases List.mem_cons.mp he' with rfl | hmem'
    · rfl
    · have hle := hrest.id_le n rest e' hmem'
      omega
    · have hle := hrest.id_le n rest e hmem
      omega
    · exact ih hmem hmem'

def survivors (log later : Log) : List Entry := log.entries.filter (· ∈ later.entries)

def lost (log later : Log) : List Entry := log.entries.filter (· ∉ later.entries)

theorem length_survivors_add_lost (log later : Log) :
    (log.survivors later).length + (log.lost later).length = log.entries.length := by
  simp only [survivors, lost, decide_not]
  exact List.length_eq_length_filter_add (fun e => decide (e ∈ later.entries)) |>.symm

/-- The connections that are left are those from the new lower bound on. -/
theorem survivors_afterAll (log : Log) (writes : List Write) (h : log.Unbroken) :
    log.survivors (log.afterAll writes) =
      log.entries.filter fun e => (log.afterAll writes).low ≤ e.id := by
  have hlater := afterAll_unbroken log writes h
  have hlast := (afterAll_bounds log writes).2
  apply List.filter_congr
  intro e he
  have hid := h.descends.id_le log.lastId log.entries e he
  rw [decide_eq_decide]
  constructor
  · intro hmem
    exact ((mem_iff_low _ hlater e.id).mp ⟨e, hmem, rfl⟩).1
  · intro hlow
    obtain ⟨e', hmem, hsame⟩ := (mem_iff_low _ hlater e.id).mpr ⟨hlow, by omega⟩
    have hold := mem_of_mem_afterAll log writes e' hmem (by omega)
    rw [← h.descends.eq_of_id_eq log.lastId log.entries e' e hold he hsame]
    exact hmem

/-- How many of consecutive identifiers are not below a bound. -/
theorem Descends.length_filter (n : Nat) (entries : List Entry) (h : Descends n entries)
    (before : Int) :
    ((entries.filter fun e => before ≤ e.id).length : Int) =
      max 0 (min (entries.length : Int) ((n : Int) + 1 - before)) := by
  induction h with
  | nil n =>
    rw [List.filter_nil, List.length_nil]
    omega
  | @cons n e rest hid hrest ih =>
    by_cases hkeep : before ≤ e.id
    · rw [List.filter_cons_of_pos (by simpa using hkeep), List.length_cons, List.length_cons]
      omega
    · rw [List.filter_cons_of_neg (by simpa using hkeep), List.length_cons]
      omega

/-- How many connections are left is the distance from the new lower bound to the old
upper one. -/
theorem length_survivors (log : Log) (writes : List Write) (h : log.Unbroken) :
    ((log.survivors (log.afterAll writes)).length : Int) =
      max 0 ((log.lastId : Int) + 1 - (log.afterAll writes).low) := by
  have hlow := (afterAll_bounds log writes).1
  rw [survivors_afterAll log writes h, h.descends.length_filter]
  rw [low] at hlow
  omega

theorem span_eq_empty_iff (log : Log) (h : log.Unbroken) :
    log.span = Span.empty ↔ log.entries = [] := by
  constructor
  · intro hspan
    by_contra hne
    have hfirst := one_le_low log h
    rw [span_of_ne_nil log h hne] at hspan
    have hzero : log.low = 0 := congrArg Span.first hspan
    omega
  · exact span_of_nil log

theorem fetch_of_nil (log : Log) (h : log.entries = []) : log.fetch = fun _ => .ok none := by
  funext id
  simp only [fetch, entry?, h, List.find?_nil]

/-- The induction is on the run from its end. Bounds never move down, so bounds that are
the same at both ends were the same before the last write too. -/
theorem fetch_of_bounds_eq (before more : List Write) (hlawful : Lawful (before ++ more))
    (hne : (run before).entries ≠ [])
    (hlow : (run (before ++ more)).low = (run before).low)
    (hlast : (run (before ++ more)).lastId = (run before).lastId) :
    (run (before ++ more)).fetch = (run before).fetch := by
  induction more using List.reverseRecOn with
  | nil => rw [List.append_nil]
  | append_singleton more w ih =>
    rw [← List.append_assoc] at hlawful hlow hlast ⊢
    have hkept := hlawful.of_append (before ++ more) [w]
    have hmid := afterAll_bounds (run before) more
    have hend := afterAll_bounds (run (before ++ more)) [w]
    rw [← run_append] at hmid hend
    have hlowMid : (run (before ++ more)).low = (run before).low := by omega
    have hlastMid : (run (before ++ more)).lastId = (run before).lastId := by omega
    have hneMid : (run (before ++ more)).entries ≠ [] := by
      rw [← low_le_lastId_iff, hlowMid, hlastMid, low_le_lastId_iff]
      exact hne
    have hjoined := run_joined (before ++ more) hkept
    rw [← ih hkept hlowMid hlastMid]
    rw [← hlowMid, run_append_singleton] at hlow
    rw [← hlastMid, run_append_singleton] at hlast
    rw [run_append_singleton]
    refine after_induct (fun log => log.low = (run (before ++ more)).low →
      log.lastId = (run (before ++ more)).lastId → log.fetch = (run (before ++ more)).fetch)
      _ w (fun _ _ => rfl) ?_ hlow hlast
    intro outcome log' hwrite
    exact write_fetch _ log' w outcome hjoined hwrite hneMid

/-- Bounds that are seen again stand for the same records. -/
theorem fetch_of_span_eq (before more : List Write) (hlawful : Lawful (before ++ more))
    (hspan : (run before).span = (run (before ++ more)).span) :
    (run before).fetch = (run (before ++ more)).fetch := by
  have hfirst := run_unbroken before
  have hlater := run_unbroken (before ++ more)
  by_cases hnil : (run before).entries = []
  · have hnil' : (run (before ++ more)).entries = [] := by
      rw [← span_eq_empty_iff _ hlater, ← hspan, span_eq_empty_iff _ hfirst]
      exact hnil
    rw [fetch_of_nil _ hnil, fetch_of_nil _ hnil']
  · have hne' : (run (before ++ more)).entries ≠ [] := by
      rw [ne_eq, ← span_eq_empty_iff _ hlater, ← hspan, span_eq_empty_iff _ hfirst]
      exact hnil
    rw [span_of_ne_nil _ hfirst hnil, span_of_ne_nil _ hlater hne', Span.mk.injEq] at hspan
    exact (fetch_of_bounds_eq before more hlawful hnil hspan.1.symm (by omega)).symm

end ConnectionLog.Log
