import ConnectionLog.Command.Seed
import ConnectionLog.Proofs.Log.Contents
import ConnectionLog.Proofs.Window.Steps
import Mathlib.Data.List.Induction

/-!
What a window remembers over a whole history. It answers a row from its cache
exactly when that row is the one it read last with success, and neither its span
has changed nor the cache been emptied since. Over a log that does not change it
answers like a window that remembers nothing.
-/
namespace ConnectionLog.Window

variable {ε : Type}

/-- What is done with a window. Every read meets the log as it is by then. -/
inductive Step (ε : Type) where
  | observe (new : Span)
  | invalidate
  | read (source : Source ε) (row : Nat)

def step (w : Window) : Step ε → Window
  | .observe new => w.observe new
  | .invalidate => w.invalidate
  | .read source row => (w.read source row).window

def run (w : Window) (steps : List (Step ε)) : Window := steps.foldl step w

def after (history : List (Step ε)) : Window := run initial history

/-- The steps after which the row that was cached before is not cached any more, or
not as the latest one that was read. Reads that fail are none of them. -/
def Disturbs (w : Window) : Step ε → Prop
  | .observe new => new ≠ w.span
  | .invalidate => True
  | .read source row => ∃ value, (w.read source row).answer = .ok value

def Undisturbed (w : Window) : List (Step ε) → Prop
  | [] => True
  | s :: rest => ¬ w.Disturbs s ∧ (w.step s).Undisturbed rest

/-- The last read of a history that gave a row was one of this row, gave this value,
and nothing has disturbed it since. -/
def Remembers (history : List (Step ε)) (row : Nat) (value : Row) : Prop :=
  ∃ before source rest, history = before ++ .read source row :: rest ∧
    ((after before).read source row).answer = .ok value ∧
    ((after before).step (.read source row)).Undisturbed rest

theorem run_append (w : Window) (steps more : List (Step ε)) :
    w.run (steps ++ more) = (w.run steps).run more := List.foldl_append

theorem after_append_cons (before rest : List (Step ε)) (s : Step ε) :
    after (before ++ s :: rest) = ((after before).step s).run rest := by
  rw [after, run_append]
  rfl

theorem after_append_singleton (history : List (Step ε)) (s : Step ε) :
    after (history ++ [s]) = (after history).step s := after_append_cons history [] s

/-- Only a step that disturbs changes a window. -/
theorem step_of_not_disturbs (w : Window) (s : Step ε) (h : ¬ w.Disturbs s) :
    w.step s = w := by
  cases s with
  | observe new =>
    have heq : new = w.span := not_not.mp h
    subst heq
    exact observe_self w
  | invalidate => exact absurd trivial h
  | read source row =>
    cases hanswer : (w.read source row).answer with
    | ok value => exact absurd ⟨value, hanswer⟩ h
    | error e => exact read_error w source row e hanswer

theorem run_of_undisturbed (w : Window) (steps : List (Step ε)) (h : w.Undisturbed steps) :
    w.run steps = w := by
  induction steps with
  | nil => rfl
  | cons s rest ih =>
    have hstep := step_of_not_disturbs w s h.1
    change (w.step s).run rest = w
    rw [hstep]
    exact ih (hstep ▸ h.2)

theorem undisturbed_append (w : Window) (steps more : List (Step ε)) :
    w.Undisturbed (steps ++ more) ↔ w.Undisturbed steps ∧ (w.run steps).Undisturbed more := by
  induction steps generalizing w with
  | nil => simp [Undisturbed, run]
  | cons s rest ih =>
    simp only [List.cons_append, Undisturbed, ih, and_assoc]
    rfl

/-- What is remembered is cached, under the identifier its row stands for. -/
theorem entry_of_remembers (history : List (Step ε)) (row : Nat) (value : Row)
    (h : Remembers history row value) :
    ∃ id, (after history).span.id? row = some id ∧
      (after history).cache.entry = some ⟨row, id, value⟩ := by
  obtain ⟨before, source, rest, rfl, hanswer, hrest⟩ := h
  obtain ⟨id, hid, hwindow⟩ := read_ok (after before) source row value hanswer
  have hafter : after (before ++ .read source row :: rest) =
      ⟨(after before).span, ⟨some ⟨row, id, value⟩⟩⟩ := by
    calc after (before ++ .read source row :: rest)
        = ((after before).step (.read source row)).run rest := after_append_cons ..
      _ = (after before).step (.read source row) := run_of_undisturbed _ rest hrest
      _ = ⟨(after before).span, ⟨some ⟨row, id, value⟩⟩⟩ := hwindow
  rw [hafter]
  exact ⟨id, hid, rfl⟩

/-- What is cached after a step that disturbs was read by it. -/
theorem cache_of_disturbs (w : Window) (s : Step ε) (e : CachedRow) (h : w.Disturbs s)
    (he : (w.step s).cache.entry = some e) :
    ∃ source, s = .read source e.row ∧ (w.read source e.row).answer = .ok e.value := by
  cases s with
  | observe new =>
    simp only [step, observe_cache w new h, RowCache.empty, reduceCtorEq] at he
  | invalidate =>
    simp only [step, invalidate, RowCache.empty, reduceCtorEq] at he
  | read source row =>
    obtain ⟨value, hanswer⟩ := h
    obtain ⟨id, -, hwindow⟩ := read_ok w source row value hanswer
    simp only [step, hwindow, Option.some.injEq] at he
    subst he
    exact ⟨source, rfl, hanswer⟩

/-- What is cached after a step was cached before it, or else the step is the read that
fetched it. Either way the step leaves the span as it is. -/
theorem entry_of_step (w : Window) (s : Step ε) (e : CachedRow)
    (he : (w.step s).cache.entry = some e) :
    (w.step s).span = w.span ∧
      (s ≠ .invalidate ∧ w.cache.entry = some e ∨
        ∃ source, s = .read source e.row ∧ w.span.id? e.row = some e.id ∧
          (w.read source e.row).fetched = some e.id ∧ load source e.id = .ok e.value) := by
  have hs : s ≠ .invalidate := by
    rintro rfl
    exact nomatch he
  by_cases hd : w.Disturbs s
  · obtain ⟨source, rfl, hanswer⟩ := cache_of_disturbs w s e hd he
    obtain ⟨id, hid, hwindow⟩ := read_ok w source e.row e.value hanswer
    simp only [step, hwindow, Option.some.injEq] at he
    have hkey : id = e.id := congrArg CachedRow.id he
    subst hkey
    refine ⟨read_span w source e.row, ?_⟩
    rcases w.read_sources source e.row e.id e.value hid hanswer with
      ⟨hfetched, hload⟩ | ⟨-, hentry⟩
    · exact Or.inr ⟨source, rfl, hid, hfetched, hload⟩
    · exact Or.inl ⟨hs, hentry⟩
  · rw [step_of_not_disturbs w s hd] at he ⊢
    exact ⟨rfl, Or.inl ⟨hs, he⟩⟩

/-- What is cached is remembered: the induction is on the history from its end. -/
theorem remembers_of_entry (history : List (Step ε)) (e : CachedRow)
    (he : (after history).cache.entry = some e) : Remembers history e.row e.value := by
  induction history using List.reverseRecOn with
  | nil => exact nomatch he
  | append_singleton history s ih =>
    rw [after_append_singleton] at he
    by_cases h : (after history).Disturbs s
    · obtain ⟨source, rfl, hanswer⟩ := cache_of_disturbs (after history) s e h he
      exact ⟨history, source, [], rfl, hanswer, trivial⟩
    · rw [step_of_not_disturbs (after history) s h] at he
      obtain ⟨before, source, rest, rfl, hanswer, hrest⟩ := ih he
      refine ⟨before, source, rest ++ [s], by simp, hanswer, ?_⟩
      refine (undisturbed_append _ rest [s]).mpr ⟨hrest, ?_, trivial⟩
      rw [← after_append_cons]
      exact h

/-- Finding a row in the cache is remembering it. -/
theorem find?_eq_some_iff_remembers (history : List (Step ε)) (row : Nat) (id : Int)
    (value : Row) (hid : (after history).span.id? row = some id) :
    (after history).cache.find? row id = some value ↔ Remembers history row value := by
  rw [find?_eq_some_iff]
  constructor
  · intro he
    exact remembers_of_entry history ⟨row, id, value⟩ he
  · intro h
    obtain ⟨id', hid', he⟩ := entry_of_remembers history row value h
    have heq : id' = id := Option.some.inj (hid'.symm.trans hid)
    rw [he, heq]

def Placed (w : Window) : Prop :=
  ∀ e, w.cache.entry = some e → w.span.id? e.row = some e.id

theorem step_placed (w : Window) (s : Step ε) (h : w.Placed) : (w.step s).Placed := by
  intro e he
  obtain ⟨hspan, hentry⟩ := entry_of_step w s e he
  rw [hspan]
  rcases hentry with ⟨-, hkept⟩ | ⟨_, -, hid, -, -⟩
  · exact h e hkept
  · exact hid

/-- What is cached belongs to the table through every run. -/
theorem run_placed (w : Window) (steps : List (Step ε)) (h : w.Placed) :
    (w.run steps).Placed := by
  induction steps generalizing w with
  | nil => exact h
  | cons s rest ih => exact ih (w.step s) (step_placed w s h)

def answers (w : Window) : List (Step ε) → List (Except (ReadError ε) Row)
  | [] => []
  | .read source row :: rest =>
    (w.read source row).answer :: (w.step (.read source row)).answers rest
  | s :: rest => (w.step s).answers rest

def plainRead (span : Span) (source : Source ε) (row : Nat) : Except (ReadError ε) Row :=
  match span.id? row with
  | none => .error (.outOfRange row span.rows)
  | some id => load source id

/-- The answers of a window without a cache. It is nothing but a span, and moves by
the same edits. -/
def plainAnswers (span : Span) : List (Step ε) → List (Except (ReadError ε) Row)
  | [] => []
  | .observe new :: rest =>
    plainAnswers ((Plan.between span new).edits.foldl Span.apply span) rest
  | .invalidate :: rest => plainAnswers span rest
  | .read source row :: rest => plainRead span source row :: plainAnswers span rest

def Step.Steady (fetch : Int → Except ε (Option Record)) : Step ε → Prop
  | .read source _ => source.fetch = fetch
  | _ => True

def Current (w : Window) (source : Source ε) : Prop :=
  ∀ e, w.cache.entry = some e → load source e.id = .ok e.value

theorem load_congr (source other : Source ε) (id : Int) (h : other.fetch = source.fetch) :
    load other id = load source id := by
  rw [load, load, h]

theorem Current.congr (w : Window) (source other : Source ε) (h : w.Current source)
    (hf : other.fetch = source.fetch) : w.Current other := by
  intro e he
  rw [load_congr source other e.id hf]
  exact h e he

/-- A current cache answers what a window without one would. -/
theorem read_of_current (w : Window) (source : Source ε) (row : Nat) (h : w.Current source) :
    (w.read source row).answer = plainRead w.span source row := by
  cases hid : w.span.id? row with
  | none =>
    rw [read_of_none w source row hid]
    simp only [plainRead, hid, rows]
  | some id =>
    cases hfind : w.cache.find? row id with
    | some value =>
      rw [read_of_hit w source row id value hid hfind]
      have hentry := (find?_eq_some_iff w.cache row id value).mp hfind
      simp only [plainRead, hid, h _ hentry]
    | none =>
      rw [read_of_miss w source row id hid hfind]
      simp only [plainRead, hid]
      cases load source id <;> rfl

theorem step_current (w : Window) (source : Source ε) (s : Step ε)
    (hs : s.Steady source.fetch) (h : w.Current source) : (w.step s).Current source := by
  intro e he
  rcases (entry_of_step w s e he).2 with ⟨-, hkept⟩ | ⟨other, rfl, -, -, hload⟩
  · exact h e hkept
  · rw [← load_congr source other e.id hs]
    exact hload

theorem run_current (w : Window) (source : Source ε) (steps : List (Step ε))
    (hs : ∀ s ∈ steps, s.Steady source.fetch) (h : w.Current source) :
    (w.run steps).Current source := by
  induction steps generalizing w with
  | nil => exact h
  | cons s rest ih =>
    exact ih (w.step s) (fun s' hs' => hs s' (List.mem_cons_of_mem s hs'))
      (step_current w source s (hs s List.mem_cons_self) h)

/-- Over a log that does not change the cache makes no difference to any answer. -/
theorem answers_eq_plainAnswers (w : Window) (source : Source ε) (steps : List (Step ε))
    (hs : ∀ s ∈ steps, s.Steady source.fetch) (h : w.Current source) :
    w.answers steps = plainAnswers w.span steps := by
  induction steps generalizing w with
  | nil => rfl
  | cons s rest ih =>
    have hrest : ∀ s ∈ rest, s.Steady source.fetch := fun s' hs' =>
      hs s' (List.mem_cons_of_mem s hs')
    have hsteady := hs s List.mem_cons_self
    have hnext := ih (w.step s) hrest (step_current w source s hsteady h)
    cases s with
    | observe new =>
      rw [answers, plainAnswers, hnext, step, observe_span, Plan.foldl_apply_edits]
      exact nofun
    | invalidate =>
      rw [answers, plainAnswers, hnext]
      · rfl
      · exact nofun
    | read other row =>
      have hother := h.congr w source other hsteady
      rw [answers, plainAnswers, hnext, read_of_current w other row hother, step, read_span]

theorem identify_eq_ok_iff (w : Window) (row : Nat) (id : Int) :
    w.identify row = (.ok id : Except (ReadError ε) Int) ↔ w.span.id? row = some id := by
  rw [identify]
  cases w.span.id? row <;> simp

theorem load_eq (source : Source ε) (id : Int) :
    load source id =
      match source.fetch id with
      | .ok (some record) => .ok (some record.decode)
      | .ok none => .ok none
      | .error cause => .error (.fetchFailed id cause) := by
  rw [load]
  rcases source.fetch id with cause | _ | record <;> rfl

theorem load_eq_ok_iff (source : Source ε) (id : Int) (value : Row) :
    load source id = .ok value ↔
      ∃ found, source.fetch id = .ok found ∧ value = found.map Record.decode := by
  rw [load]
  cases source.fetch id with
  | ok found => simp [eq_comm]
  | error cause => simp

/-- A row that is remembered is not fetched. -/
theorem read_of_remembers (history : List (Step ε)) (source : Source ε) (row : Nat) (id : Int)
    (value : Row) (hid : (after history).span.id? row = some id)
    (h : Remembers history row value) :
    (after history).read source row = ⟨.ok value, none, after history⟩ :=
  read_of_hit (after history) source row id value hid
    ((find?_eq_some_iff_remembers history row id value hid).mpr h)

/-- A row that is not remembered is fetched. -/
theorem read_of_not_remembers (history : List (Step ε)) (source : Source ε) (row : Nat)
    (id : Int) (hid : (after history).span.id? row = some id)
    (h : ¬ ∃ value, Remembers history row value) :
    ((after history).read source row).fetched = some id ∧
      ((after history).read source row).answer = load source id := by
  have hmiss : (after history).cache.find? row id = none := by
    cases hfind : (after history).cache.find? row id with
    | none => rfl
    | some value =>
      exact absurd ⟨value, (find?_eq_some_iff_remembers history row id value hid).mp hfind⟩ h
  rw [read_of_miss (after history) source row id hid hmiss]
  cases load source id <;> exact ⟨rfl, rfl⟩

/-- After any history a read fetches nothing exactly when its row is remembered or is
none of the table, and gives what is remembered, what the fetch found, or the fault.
Where the records of the log never change, no answer tells that there is a cache. -/
theorem read_after (history : List (Step ε)) :
    (∀ (source : Source ε) (row : Nat),
      (∀ e, (after history).identify row = (.error e : Except (ReadError ε) Int) →
        (after history).read source row = ⟨.error e, none, after history⟩) ∧
      (∀ id, (after history).identify row = (.ok id : Except (ReadError ε) Int) →
        id = (after history).span.first + row ∧
        (((after history).read source row).fetched = none ↔
          ∃ value, Remembers history row value) ∧
        (∀ value, Remembers history row value →
          ((after history).read source row).answer = .ok value) ∧
        ((¬ ∃ value, Remembers history row value) →
          ((after history).read source row).fetched = some id ∧
          ((after history).read source row).answer =
            match source.fetch id with
            | .ok (some record) => .ok (some record.decode)
            | .ok none => .ok none
            | .error cause => .error (.fetchFailed id cause))) ∧
      ∀ other : Source ε,
        (∀ id, ((after history).read source row).fetched = some id →
          other.fetch id = source.fetch id) →
        (after history).read other row = (after history).read source row) ∧
    ∀ fetch, (∀ s ∈ history, s.Steady fetch) →
      initial.answers history = plainAnswers Span.empty history := by
  refine ⟨?_, ?_⟩
  · intro source row
    refine ⟨?_, ?_, fun other => read_congr (after history) source other row⟩
    · intro e he
      cases hid : (after history).span.id? row with
      | none =>
        rw [identify_of_none (after history) row hid] at he
        rw [read_of_none (after history) source row hid, Except.error.inj he]
      | some id =>
        rw [identify_of_some (after history) row id hid] at he
        exact nomatch he
    · intro id hok
      have hid := (identify_eq_ok_iff (after history) row id).mp hok
      refine ⟨((Span.id?_eq_some_iff _ row id).mp hid).2.2.2, ?_, ?_, ?_⟩
      · constructor
        · intro hfetched
          by_contra hnot
          have hmiss := (read_of_not_remembers history source row id hid hnot).1
          rw [hfetched] at hmiss
          exact nomatch hmiss
        · rintro ⟨value, h⟩
          rw [read_of_remembers history source row id value hid h]
      · intro value h
        rw [read_of_remembers history source row id value hid h]
      · intro h
        rw [← load_eq]
        exact read_of_not_remembers history source row id hid h
  · intro fetch hsteady
    have hcurrent : initial.Current (⟨.ok Span.empty, fetch⟩ : Source ε) := by
      intro e he
      simp only [initial, RowCache.empty, reduceCtorEq] at he
    exact answers_eq_plainAnswers initial _ history hsteady hcurrent

/-- The records have changed since row 0 was read. That row is still what it was, the next one
is what has become of it, and the table has no row behind the third. -/
theorem read_after_changed :
    let record := (Seed.connection [1] 0 false 0).record 1 "/usr/bin/curl"
    let full : Source Unit := ⟨.ok ⟨1, 3⟩, fun _ => .ok (some record)⟩
    let changed : Source Unit := ⟨.ok ⟨1, 3⟩, fun _ => .ok none⟩
    let history : List (Step Unit) := [.observe ⟨1, 3⟩, .read full 0]
    let w := after history
    Remembers history 0 (some record.decode) ∧
      (w.read changed 0).fetched = none ∧
      (w.read changed 0).answer = .ok (some record.decode) ∧
      (¬ ∃ value, Remembers history 1 value) ∧
      (w.read changed 1).fetched = some 2 ∧ (w.read changed 1).answer = .ok none ∧
      w.read changed 3 = ⟨.error (.outOfRange 3 3), none, w⟩ ∧
      initial.answers history = plainAnswers Span.empty history := by
  intro record full changed history w
  have hcached : (after history).cache.entry = some ⟨0, 1, some record.decode⟩ := by
    decide +kernel
  have hremembers : Remembers history 0 (some record.decode) :=
    remembers_of_entry history _ hcached
  have hforgotten : ¬ ∃ value, Remembers history 1 value := by
    rintro ⟨value, h⟩
    obtain ⟨id, -, hentry⟩ := entry_of_remembers history 1 value h
    have hrow := congrArg CachedRow.row (Option.some.inj (hcached.symm.trans hentry))
    exact Nat.zero_ne_one hrow
  have hsteady : ∀ s ∈ history, s.Steady full.fetch := by
    simp [history, Step.Steady]
  obtain ⟨hreads, hplain⟩ := read_after history
  obtain ⟨-, hfirst, -⟩ := hreads changed 0
  obtain ⟨-, hsecond, -⟩ := hreads changed 1
  obtain ⟨hbehind, -⟩ := hreads changed 3
  obtain ⟨-, hhit, hvalue, -⟩ := hfirst 1 rfl
  obtain ⟨-, -, -, hmiss⟩ := hsecond 2 rfl
  obtain ⟨hfetched, hfound⟩ := hmiss hforgotten
  exact ⟨hremembers, hhit.mpr ⟨_, hremembers⟩, hvalue _ hremembers, hforgotten, hfetched,
    hfound, hbehind _ rfl, hplain full.fetch hsteady⟩

end ConnectionLog.Window
