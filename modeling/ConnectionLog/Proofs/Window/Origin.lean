import ConnectionLog.Proofs.Window.Memory

/-!
Where a cached row comes from. It belongs to the table as it is: its row is one of the table
and stands for the identifier it is cached with. Its value was found by a fetch of that
identifier, and since then the span has not changed. So of the two things an entry is known
by, the row alone tells whether it is the one that is looked for.
-/
namespace ConnectionLog

theorem RowCache.holds_iff (c : RowCache) (row : Nat) (id : Int) :
    c.holds row id = true ↔ ∃ e, c.entry = some e ∧ e.row = row ∧ e.id = id := by
  rw [holds, Option.isSome_iff_exists]
  constructor
  · rintro ⟨value, hfind⟩
    exact ⟨⟨row, id, value⟩, (Window.find?_eq_some_iff c row id value).mp hfind, rfl, rfl⟩
  · rintro ⟨e, hentry, rfl, rfl⟩
    exact ⟨e.value, (Window.find?_eq_some_iff c e.row e.id e.value).mpr hentry⟩

namespace Window

variable {ε : Type}

/-- All along the steps `since`, which come after those `before`, the span stays the same, and
the cache is not emptied on request. -/
structure Unmoved (before since : List (Step ε)) : Prop where
  span : ∀ steps, steps <+: since → (after (before ++ steps)).span = (after before).span
  kept : .invalidate ∉ since

/-- The log was asked for an identifier and gave this, a record or that there is none, in a
read since the span last changed, and since the cache was last emptied on request. -/
def FoundSince (history : List (Step ε)) (id : Int) (found : Option Record) : Prop :=
  ∃ before source row rest, history = before ++ .read source row :: rest ∧
    Unmoved before (.read source row :: rest) ∧
    ((after before).read source row).fetched = some id ∧ source.fetch id = .ok found

theorem unmoved_nil (before : List (Step ε)) : Unmoved before [] where
  span := by
    intro steps hsteps
    rw [List.prefix_nil.mp hsteps, List.append_nil]
  kept := List.not_mem_nil

theorem Unmoved.concat (before since : List (Step ε)) (s : Step ε) (h : Unmoved before since)
    (hspan : ((after (before ++ since)).step s).span = (after (before ++ since)).span)
    (hs : s ≠ .invalidate) : Unmoved before (since ++ [s]) where
  span := by
    intro steps hsteps
    rcases List.prefix_concat_iff.mp hsteps with rfl | hshorter
    · rw [← List.append_assoc, after_append_singleton, hspan]
      exact h.span since List.prefix_rfl
    · exact h.span steps hshorter
  kept := by
    rw [List.mem_append, List.mem_singleton]
    rintro (hmem | rfl)
    · exact h.kept hmem
    · exact hs rfl

/-- What was found stays found through steps that leave the span. -/
theorem FoundSince.concat (history : List (Step ε)) (id : Int) (found : Option Record)
    (s : Step ε) (h : FoundSince history id found)
    (hspan : ((after history).step s).span = (after history).span) (hs : s ≠ .invalidate) :
    FoundSince (history ++ [s]) id found := by
  obtain ⟨before, source, row, rest, rfl, hunmoved, hfetched, hfound⟩ := h
  exact ⟨before, source, row, rest ++ [s], List.append_assoc .., hunmoved.concat _ _ s hspan hs,
    hfetched, hfound⟩

theorem foundSince_read (history : List (Step ε)) (source : Source ε) (row : Nat) (id : Int)
    (found : Option Record) (hfetched : ((after history).read source row).fetched = some id)
    (hfound : source.fetch id = .ok found) :
    FoundSince (history ++ [.read source row]) id found := by
  refine ⟨history, source, row, [], rfl, ?_, hfetched, hfound⟩
  refine (unmoved_nil history).concat _ _ _ ?_ nofun
  rw [List.append_nil]
  exact read_span (after history) source row

/-- What is cached was found: the induction is on the history from its end. -/
theorem found_of_entry (history : List (Step ε)) (e : CachedRow)
    (he : (after history).cache.entry = some e) :
    ∃ found, FoundSince history e.id found ∧ e.value = found.map Record.decode := by
  induction history using List.reverseRecOn with
  | nil => exact nomatch he
  | append_singleton history s ih =>
    rw [after_append_singleton] at he
    obtain ⟨hspan, hentry⟩ := entry_of_step (after history) s e he
    rcases hentry with ⟨hs, hkept⟩ | ⟨source, rfl, -, hfetched, hload⟩
    · obtain ⟨found, hfound, hvalue⟩ := ih hkept
      exact ⟨found, hfound.concat _ _ _ s hspan hs, hvalue⟩
    · obtain ⟨found, hfetch, hvalue⟩ := (load_eq_ok_iff source e.id e.value).mp hload
      exact ⟨found, foundSince_read history source e.row e.id found hfetched hfetch, hvalue⟩

/-- After any history what is cached belongs to the table. -/
theorem after_placed (history : List (Step ε)) : (after history).Placed := by
  have hinitial : initial.Placed := by
    intro e he
    exact nomatch he
  exact run_placed initial history hinitial

/-- Where entries belong to the table, a lookup that compared only rows would come to the
same. -/
theorem holds_iff_of_placed (w : Window) (h : w.Placed) (row : Nat) (id : Int)
    (hid : w.span.id? row = some id) :
    w.cache.holds row id = true ↔ ∃ e, w.cache.entry = some e ∧ e.row = row := by
  rw [RowCache.holds_iff]
  constructor
  · rintro ⟨e, hentry, hrow, -⟩
    exact ⟨e, hentry, hrow⟩
  · rintro ⟨e, hentry, rfl⟩
    exact ⟨e, hentry, rfl, Option.some.inj ((h e hentry).symm.trans hid)⟩

theorem read_of_placed (w : Window) (h : w.Placed) (source : Source ε) (e : CachedRow)
    (he : w.cache.entry = some e) : w.read source e.row = ⟨.ok e.value, none, w⟩ :=
  read_of_hit w source e.row e.id e.value (h e he)
    ((find?_eq_some_iff w.cache e.row e.id e.value).mpr he)

structure Belongs (history : List (Step ε)) (e : CachedRow) : Prop where
  inTable : e.row < (after history).rows
  identified : (after history).identify e.row = (.ok e.id : Except (ReadError ε) Int)
  /-- It shows that there was no record, or the record there was, when it was fetched. -/
  found : e.value = none ∧ FoundSince history e.id none ∨
    ∃ record, e.value = some record.decode ∧ FoundSince history e.id (some record)
  /-- No row of the table that is looked for is refused for its identifier. -/
  held : ∀ row id, (after history).identify row = (.ok id : Except (ReadError ε) Int) →
    ((after history).cache.holds row id = true ↔ row = e.row)
  /-- So its row is read without a fetch, whatever the log holds by then. -/
  served : ∀ source : Source ε,
    (after history).read source e.row = ⟨.ok e.value, none, after history⟩

/-- A cached row belongs to the window, whatever was done with it before. -/
theorem entry_belongs (history : List (Step ε)) (e : CachedRow)
    (he : (after history).cache.entry = some e) : Belongs history e := by
  have hplaced := after_placed history
  have hid : (after history).span.id? e.row = some e.id := hplaced e he
  refine ⟨?_, ?_, ?_, ?_, ?_⟩
  · exact ((Span.id?_eq_some_iff _ e.row e.id).mp hid).1
  · exact identify_of_some (after history) e.row e.id hid
  · obtain ⟨found, hfound, hvalue⟩ := found_of_entry history e he
    cases found with
    | none => exact Or.inl ⟨hvalue, hfound⟩
    | some record => exact Or.inr ⟨record, hvalue, hfound⟩
  · intro row id hok
    rw [identify_eq_ok_iff] at hok
    rw [holds_iff_of_placed (after history) hplaced row id hok, he]
    simp [eq_comm]
  · intro source
    exact read_of_placed (after history) hplaced source e he

/-- Both bounds have moved, a fetch has failed, and the log has lost the record meanwhile. -/
theorem entry_belongs_moved :
    let record := (Seed.connection [1] 0 false 0).record 3 "/usr/bin/curl"
    let full : Source Unit := ⟨.ok ⟨1, 3⟩, fun _ => .ok (some record)⟩
    let failing : Source Unit := ⟨.error (), fun _ => .error ()⟩
    let pruned : Source Unit := ⟨.ok ⟨4, 5⟩, fun _ => .ok none⟩
    let history : List (Step Unit) :=
      [.observe ⟨1, 3⟩, .read full 0, .observe ⟨2, 5⟩, .read failing 1, .read full 1,
        .observe ⟨2, 5⟩, .read pruned 1]
    let e : CachedRow := ⟨1, 3, some record.decode⟩
    (Plan.between ⟨1, 3⟩ ⟨2, 5⟩).edits.length = 2 ∧
      (after history).cache.entry = some e ∧ Belongs history e := by
  intro record full failing pruned history e
  have hentry : (after history).cache.entry = some e := by decide +kernel
  exact ⟨by decide, hentry, entry_belongs history e hentry⟩

end Window

end ConnectionLog
