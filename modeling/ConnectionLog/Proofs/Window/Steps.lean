import ConnectionLog.Proofs.Plan.Between
import ConnectionLog.Proofs.Span.Ids
import ConnectionLog.Window.Basic

/-!
What the operations of a window do to its span and to its cache. A move to
another span leaves nothing cached. A read that gives a row leaves that row
cached under the identifier it stands for, and a read that fails leaves the
window as it was.
-/
namespace ConnectionLog.Window

variable {ε : Type}

theorem foldl_apply_span (w : Window) (edits : List Edit) :
    (edits.foldl apply w).span = edits.foldl Span.apply w.span := by
  induction edits generalizing w with
  | nil => rfl
  | cons e rest ih => exact ih (w.apply e)

theorem foldl_apply_cache (w : Window) (edits : List Edit) (h : edits ≠ []) :
    (edits.foldl apply w).cache = RowCache.empty := by
  induction edits generalizing w with
  | nil => exact absurd rfl h
  | cons e rest ih =>
    cases rest with
    | nil => rfl
    | cons e' rest => exact ih (w.apply e) (List.cons_ne_nil e' rest)

@[simp] theorem observe_span (w : Window) (new : Span) : (w.observe new).span = new := by
  rw [observe, foldl_apply_span, Plan.foldl_apply_edits]

/-- A move to the same span does nothing. -/
theorem observe_self (w : Window) : w.observe w.span = w := by
  rw [observe, Plan.edits_between_self, List.foldl_nil]

/-- A move to another span empties the cache. -/
theorem observe_cache (w : Window) (new : Span) (hne : new ≠ w.span) :
    (w.observe new).cache = RowCache.empty :=
  foldl_apply_cache w _ (Plan.edits_between_ne_nil w.span new hne.symm)

theorem identify_of_none (w : Window) (row : Nat) (h : w.span.id? row = none) :
    w.identify row = (.error (.outOfRange row w.rows) : Except (ReadError ε) Int) := by
  rw [identify, h]

theorem identify_of_some (w : Window) (row : Nat) (id : Int) (h : w.span.id? row = some id) :
    w.identify row = (.ok id : Except (ReadError ε) Int) := by
  rw [identify, h]

/-- What a read is where the window has no such row. -/
theorem read_of_none (w : Window) (source : Source ε) (row : Nat)
    (h : w.span.id? row = none) :
    w.read source row = ⟨.error (.outOfRange row w.rows), none, w⟩ := by
  rw [read, identify_of_none w row h]

/-- What a read is where the row is cached. -/
theorem read_of_hit (w : Window) (source : Source ε) (row : Nat) (id : Int) (value : Row)
    (hid : w.span.id? row = some id) (hhit : w.cache.find? row id = some value) :
    w.read source row = ⟨.ok value, none, w⟩ := by
  rw [read, identify_of_some w row id hid]
  simp only [hhit]

/-- What a read is where the row has to be fetched. -/
theorem read_of_miss (w : Window) (source : Source ε) (row : Nat) (id : Int)
    (hid : w.span.id? row = some id) (hmiss : w.cache.find? row id = none) :
    w.read source row =
      match load source id with
      | .ok value => ⟨.ok value, some id, ⟨w.span, ⟨some ⟨row, id, value⟩⟩⟩⟩
      | .error e => ⟨.error e, some id, w⟩ := by
  rw [read, identify_of_some w row id hid]
  cases hload : load source id with
  | ok value => simp only [hmiss, hload, RowCache.store]
  | error e => simp only [hmiss, hload]

theorem find?_eq_some_iff (c : RowCache) (row : Nat) (id : Int) (value : Row) :
    c.find? row id = some value ↔ c.entry = some ⟨row, id, value⟩ := by
  obtain ⟨entry⟩ := c
  cases entry with
  | none => simp [RowCache.find?]
  | some e =>
    obtain ⟨r, i, v⟩ := e
    simp [RowCache.find?, and_assoc]

/-- A row that was read is cached afterwards, under the identifier it stands for. -/
theorem read_ok (w : Window) (source : Source ε) (row : Nat) (value : Row)
    (h : (w.read source row).answer = .ok value) :
    ∃ id, w.span.id? row = some id ∧
      (w.read source row).window = ⟨w.span, ⟨some ⟨row, id, value⟩⟩⟩ := by
  cases hid : w.span.id? row with
  | none =>
    rw [read_of_none w source row hid] at h
    exact nomatch h
  | some id =>
    refine ⟨id, rfl, ?_⟩
    cases hfind : w.cache.find? row id with
    | some cached =>
      rw [read_of_hit w source row id cached hid hfind] at h ⊢
      have hvalue : cached = value := Except.ok.inj h
      subst hvalue
      have hentry := (find?_eq_some_iff w.cache row id cached).mp hfind
      rw [← hentry]
    | none =>
      rw [read_of_miss w source row id hid hfind] at h ⊢
      cases hload : load source id with
      | ok loaded =>
        simp only [hload, Except.ok.injEq] at h
        simp only [h]
      | error e =>
        simp only [hload] at h
        exact nomatch h

/-- Where a read has its value from: from the log, or from the cache and then it fetches
nothing. -/
theorem read_sources (w : Window) (source : Source ε) (row : Nat) (id : Int) (value : Row)
    (hid : w.span.id? row = some id) (hread : (w.read source row).answer = .ok value) :
    ((w.read source row).fetched = some id ∧ load source id = .ok value) ∨
      ((w.read source row).fetched = none ∧ w.cache.entry = some ⟨row, id, value⟩) := by
  cases hfind : w.cache.find? row id with
  | some cached =>
    rw [read_of_hit w source row id cached hid hfind] at hread ⊢
    cases hread
    exact Or.inr ⟨rfl, (find?_eq_some_iff w.cache row id value).mp hfind⟩
  | none =>
    rw [read_of_miss w source row id hid hfind] at hread ⊢
    cases hload : load source id with
    | ok loaded =>
      rw [hload] at hread
      cases hread
      exact Or.inl ⟨rfl, rfl⟩
    | error e =>
      rw [hload] at hread
      exact nomatch hread

/-- A row that was read is not fetched again, whatever the log has come to by then. -/
theorem read_again (w : Window) (source other : Source ε) (row : Nat) (value : Row)
    (h : (w.read source row).answer = .ok value) :
    (w.read source row).window.read other row =
      ⟨.ok value, none, (w.read source row).window⟩ := by
  obtain ⟨id, hid, hwindow⟩ := read_ok w source row value h
  rw [hwindow]
  exact read_of_hit _ other row id value hid ((find?_eq_some_iff _ row id value).mpr rfl)

/-- A read that fails leaves the window as it was. -/
theorem read_error (w : Window) (source : Source ε) (row : Nat) (e : ReadError ε)
    (h : (w.read source row).answer = .error e) : (w.read source row).window = w := by
  cases hid : w.span.id? row with
  | none => rw [read_of_none w source row hid]
  | some id =>
    cases hfind : w.cache.find? row id with
    | some cached => rw [read_of_hit w source row id cached hid hfind]
    | none =>
      rw [read_of_miss w source row id hid hfind] at h ⊢
      cases hload : load source id with
      | ok loaded =>
        simp only [hload] at h
        exact nomatch h
      | error cause => rfl

@[simp] theorem read_span (w : Window) (source : Source ε) (row : Nat) :
    (w.read source row).window.span = w.span := by
  cases h : (w.read source row).answer with
  | ok value =>
    obtain ⟨id, -, hwindow⟩ := read_ok w source row value h
    rw [hwindow]
  | error e => rw [read_error w source row e h]

/-- All that a read depends on is the record it says it fetched. -/
theorem read_congr (w : Window) (source other : Source ε) (row : Nat)
    (h : ∀ id, (w.read source row).fetched = some id → other.fetch id = source.fetch id) :
    w.read other row = w.read source row := by
  cases hid : w.span.id? row with
  | none => rw [read_of_none w source row hid, read_of_none w other row hid]
  | some id =>
    cases hfind : w.cache.find? row id with
    | some cached =>
      rw [read_of_hit w source row id cached hid hfind,
        read_of_hit w other row id cached hid hfind]
    | none =>
      have hfetched : (w.read source row).fetched = some id := by
        rw [read_of_miss w source row id hid hfind]
        cases load source id <;> rfl
      rw [read_of_miss w source row id hid hfind, read_of_miss w other row id hid hfind]
      simp only [load, h id hfetched]

end ConnectionLog.Window
