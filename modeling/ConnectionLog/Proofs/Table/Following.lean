import ConnectionLog.Proofs.Log.Contents
import ConnectionLog.Proofs.Table.Actions

/-!
A table follows the log it looks at, whatever the log does between two looks. Of an
earlier log a table has only the bounds, and these never come back once one of them
has moved; so if they are those of the log, then nothing was written meanwhile that
a reader could tell, and what is cached is what would be fetched.
-/
namespace ConnectionLog.Table

/-- How a table stands to a log that it has seen, now or earlier. -/
structure Follows (log : Log) (t : Table) : Prop where
  bounds : t.span = Span.empty ∨ t.span.first ≤ log.low ∧ t.span.last ≤ log.lastId
  placed : t.window.Placed
  current : log.span = t.span → t.window.Current log.source

theorem new_follows (hosts : HostNames) (resolve : Bool) :
    Follows Log.empty (Table.new hosts resolve) := by
  have hnone : (Table.new hosts resolve).window.cache.entry = none := rfl
  refine ⟨Or.inl rfl, ?_, ?_⟩
  · intro e he
    rw [hnone] at he
    exact nomatch he
  · intro _ e he
    rw [hnone] at he
    exact nomatch he

/-- What was cached for no rows is nothing. -/
theorem current_of_empty (log : Log) (t : Table) (h : t.window.Placed)
    (hspan : t.span = Span.empty) : t.window.Current log.source := by
  intro e he
  have hid := h e he
  change t.span.id? e.row = some e.id at hid
  rw [hspan, Span.id?_eq_some_iff] at hid
  exact absurd hid.1 (Nat.not_lt_zero e.row)

/-- A log may be written to behind the back of a table. -/
theorem write_follows (log log' : Log) (t : Table) (w : Log.Write) (outcome : Log.Outcome)
    (hlog : log.Unbroken) (hjoined : log.Joined) (h : Follows log t)
    (hw : log.write w = .ok (outcome, log')) : Follows log' t := by
  obtain ⟨hlow, hlast⟩ := Log.write_bounds log log' w outcome hw
  have hlog' := Log.write_unbroken log log' w outcome hlog hw
  refine ⟨?_, h.placed, ?_⟩
  · rcases h.bounds with hempty | ⟨hfirst, hlast'⟩
    · exact Or.inl hempty
    · exact Or.inr ⟨by omega, by omega⟩
  · intro hspan
    by_cases hempty : t.span = Span.empty
    · exact current_of_empty log' t h.placed hempty
    · -- The bounds were the same before the write, and it has moved neither.
      have hne' : log'.entries ≠ [] := by
        intro hnil
        rw [Log.span_of_nil log' hnil] at hspan
        exact hempty hspan.symm
      have hle' := (Log.low_le_lastId_iff log').mpr hne'
      rw [Log.span_of_ne_nil log' hlog' hne'] at hspan
      obtain ⟨hfirst, hlast'⟩ := h.bounds.resolve_left hempty
      rw [← hspan] at hfirst hlast'
      simp only at hfirst hlast'
      have hsameLow : log'.low = log.low := by omega
      have hsameLast : log'.lastId = log.lastId := by omega
      have hne : log.entries ≠ [] := (Log.low_le_lastId_iff log).mp (by omega)
      have hcurrent : t.window.Current log.source := by
        apply h.current
        rw [Log.span_of_ne_nil log hlog hne, ← hspan, hsameLow, hsameLast]
      have hfetch := Log.write_fetch log log' w outcome hjoined hw hne hsameLow hsameLast
      exact hcurrent.congr t.window log.source log'.source hfetch

theorem after_follows (log : Log) (t : Table) (w : Log.Write) (hlog : log.Unbroken)
    (hjoined : log.Joined) (h : Follows log t) : Follows (log.after w) t :=
  Log.after_induct (Follows · t) log w h fun outcome log' =>
    write_follows log log' t w outcome hlog hjoined h

/-- A table has the bounds it had before, or those of the log. -/
theorem act_span_cases (log : Log) (t : Table) (a : Action) :
    (a = .update ∧ (t.act log.source a).span = log.span) ∨
      (a ≠ .update ∧ (t.act log.source a).span = t.span) := by
  rw [act_span]
  cases a with
  | update => exact Or.inl ⟨rfl, rfl⟩
  | refresh => exact Or.inr ⟨nofun, rfl⟩
  | setResolve resolve => exact Or.inr ⟨nofun, rfl⟩
  | read row => exact Or.inr ⟨nofun, rfl⟩
  | readCell row column role => exact Or.inr ⟨nofun, rfl⟩
  | takeEvents => exact Or.inr ⟨nofun, rfl⟩

theorem update_window (log : Log) (t : Table) :
    (t.act log.source .update).window = t.window.observe log.span := by
  rw [act_window]
  rfl

/-- A table that acts on its log follows it on. -/
theorem act_follows (log : Log) (t : Table) (a : Action) (hlog : log.Unbroken)
    (h : Follows log t) : Follows log (t.act log.source a) := by
  have hplaced : (t.act log.source a).window.Placed := by
    rw [act_window]
    exact Window.run_placed t.window _ h.placed
  rcases act_span_cases log t a with ⟨rfl, hspan⟩ | ⟨hother, hspan⟩
  · refine ⟨?_, hplaced, ?_⟩
    · rw [hspan]
      by_cases hnil : log.entries = []
      · exact Or.inl (Log.span_of_nil log hnil)
      · rw [Log.span_of_ne_nil log hlog hnil]
        exact Or.inr ⟨Int.le_refl _, Int.le_refl _⟩
    · intro _
      rw [update_window]
      by_cases hsame : log.span = t.span
      · rw [hsame, span, Window.observe_self]
        exact h.current hsame
      · intro e he
        rw [Window.observe_cache t.window log.span hsame] at he
        cases he
  · refine ⟨?_, hplaced, ?_⟩
    · rw [hspan]
      exact h.bounds
    · intro hsame
      rw [hspan] at hsame
      rw [act_window]
      exact Window.run_current t.window log.source _ (moves_steady t log.source a)
        (h.current hsame)

variable {ε : Type}

def listing (t : Table) (source : Source ε) (start : Nat) :
    Nat → List (Except (ReadError ε) Row)
  | 0 => []
  | count + 1 =>
    (t.read source start).answer ::
      (t.after (t.read source start)).listing source (start + 1) count

/-- What is listed is what a table without a cache would list. -/
theorem listing_of_current (t : Table) (source : Source ε) (start count : Nat)
    (h : t.window.Current source) :
    t.listing source start count =
      (List.range' start count).map (Window.plainRead t.span source) := by
  induction count generalizing t start with
  | zero => rfl
  | succ count ih =>
    have hnext : (t.after (t.read source start)).window.Current source :=
      Window.step_current t.window source (.read source start) rfl h
    have hspan : (t.after (t.read source start)).span = t.span :=
      Window.read_span t.window source start
    rw [listing, ih _ (start + 1) hnext, hspan, List.range'_succ, List.map_cons]
    congr 1
    exact Window.read_of_current t.window source start h

end ConnectionLog.Table
