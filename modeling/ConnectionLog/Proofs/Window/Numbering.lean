import ConnectionLog.Proofs.Plan.Exact
import ConnectionLog.Proofs.Window.Memory

/-!
Rows and the identifiers they stand for. The sum of the first identifier and a row never
goes beyond the last identifier, so that a row is refused only because the table does not
have it, or because it is no identifier itself. As long as the table has no row of that
kind, its rows count through the identifiers between its bounds.
-/
namespace ConnectionLog

/-- A table has the rows up to the distance of its bounds, as far as they can be counted. -/
theorem Span.lt_rows_iff (s : Span) (row : Nat) :
    row < s.rows ↔ 0 < s.last ∧ s.first + row ≤ s.last ∧ row < maxCount := by
  unfold rows isEmpty
  by_cases hpos : 0 < s.last
  · have hfull : ¬ s.last ≤ 0 := by omega
    by_cases hle : s.first ≤ s.last
    · have hproper : ¬ s.last < s.first := by omega
      simp only [hfull, hproper, decide_false, Bool.or_false, Bool.false_eq_true, if_false]
      omega
    · have hinverted : s.last < s.first := by omega
      simp only [hinverted, decide_true, Bool.or_true, if_true]
      omega
  · have hempty : s.last ≤ 0 := by omega
    simp only [hempty, decide_true, Bool.true_or, if_true]
    omega

theorem Span.rows_eq_zero_iff (s : Span) : s.rows = 0 ↔ s.last ≤ 0 ∨ s.last < s.first := by
  have hfirst := s.lt_rows_iff 0
  simp only [maxCount] at hfirst
  omega

namespace Window

structure CountsThrough (ε : Type) (w : Window) : Prop where
  /-- Which rows are identified, and as what. -/
  identified : ∀ row id, w.identify row = (.ok id : Except (ReadError ε) Int) ↔
    row < w.rows ∧ (row : Int) ≤ maxId ∧ id = w.span.first + row
  refused : ∀ row, ¬ (row < w.rows ∧ (row : Int) ≤ maxId) →
    w.identify row = (.error (.outOfRange row w.rows) : Except (ReadError ε) Int)
  /-- The sum for a row of the table is an identifier between the bounds. -/
  within : ∀ row < w.rows, w.span.first ≤ w.span.first + row ∧
    w.span.first + row ≤ w.span.last ∧ minId ≤ w.span.first + row ∧ w.span.first + row ≤ maxId
  empty : w.rows = 0 ↔ w.span.last ≤ 0 ∨ w.span.last < w.span.first
  increasing : ∀ row row' id id', w.identify row = (.ok id : Except (ReadError ε) Int) →
    w.identify row' = (.ok id' : Except (ReadError ε) Int) → (id < id' ↔ row < row')
  /-- Nothing is left out where the table has no more rows than there are identifiers
  that are not negative. -/
  total : (w.rows : Int) ≤ maxId + 1 → ∀ row < w.rows,
    ∃ id, w.identify row = (.ok id : Except (ReadError ε) Int)
  onto : (w.rows : Int) ≤ maxId + 1 → ∀ id,
    (∃ row, w.identify row = (.ok id : Except (ReadError ε) Int)) ↔
      0 < w.span.last ∧ w.span.first ≤ id ∧ id ≤ w.span.last

variable {ε : Type}

/-- The sum for a row never leaves the bounds. -/
theorem add_row_within (w : Window) (h : w.span.InRange) (row : Nat) (hrow : row < w.rows) :
    w.span.first ≤ w.span.first + row ∧ w.span.first + row ≤ w.span.last ∧
      minId ≤ w.span.first + row ∧ w.span.first + row ≤ maxId := by
  have hlast := ((w.span.lt_rows_iff row).mp hrow).2.1
  have hlow := h.minId_le_first
  have hhigh := h.last_le
  omega

theorem identify_eq_ok_iff_of_inRange (w : Window) (h : w.span.InRange) (row : Nat) (id : Int) :
    w.identify row = (.ok id : Except (ReadError ε) Int) ↔
      row < w.rows ∧ (row : Int) ≤ maxId ∧ id = w.span.first + row := by
  rw [identify_eq_ok_iff, Span.id?_eq_some_iff]
  constructor
  · rintro ⟨hrow, hmax, -, hid⟩
    exact ⟨hrow, hmax, hid⟩
  · rintro ⟨hrow, hmax, hid⟩
    exact ⟨hrow, hmax, (add_row_within w h row hrow).2.2.2, hid⟩

theorem identify_of_not_lt (w : Window) (row : Nat)
    (h : ¬ (row < w.rows ∧ (row : Int) ≤ maxId)) :
    w.identify row = (.error (.outOfRange row w.rows) : Except (ReadError ε) Int) := by
  have hnone : w.span.id? row = none := if_neg fun hall => h ⟨hall.1, hall.2.1⟩
  rw [identify, hnone]

/-- Every identifier between the bounds has a row, unless there are too many of them. -/
theorem exists_row (w : Window) (hrows : (w.rows : Int) ≤ maxId + 1) (id : Int)
    (hpos : 0 < w.span.last) (hfirst : w.span.first ≤ id) (hlast : id ≤ w.span.last) :
    (id - w.span.first).toNat < w.rows := by
  have hcounted := w.span.lt_rows_iff (maxId + 1).toNat
  change (maxId + 1).toNat < w.rows ↔ _ at hcounted
  change _ < w.span.rows
  rw [Span.lt_rows_iff]
  simp only [maxId, maxCount] at *
  omega

/-- Rows and identifiers correspond in every window with bounds of 64 bits. -/
theorem identify_counts (w : Window) (h : w.span.InRange) : CountsThrough ε w where
  identified := identify_eq_ok_iff_of_inRange w h
  refused := identify_of_not_lt w
  within := add_row_within w h
  empty := w.span.rows_eq_zero_iff
  increasing := by
    intro row row' id id' hid hid'
    have hsum := ((identify_eq_ok_iff_of_inRange w h row id).mp hid).2.2
    have hsum' := ((identify_eq_ok_iff_of_inRange w h row' id').mp hid').2.2
    omega
  total := by
    intro hrows row hrow
    refine ⟨w.span.first + row, ?_⟩
    rw [identify_eq_ok_iff_of_inRange w h]
    exact ⟨hrow, by omega, rfl⟩
  onto := by
    intro hrows id
    constructor
    · rintro ⟨row, hid⟩
      obtain ⟨hrow, -, rfl⟩ := (identify_eq_ok_iff_of_inRange w h row id).mp hid
      obtain ⟨hpos, hlast, -⟩ := (w.span.lt_rows_iff row).mp hrow
      exact ⟨hpos, by omega, hlast⟩
    · rintro ⟨hpos, hfirst, hlast⟩
      have hrow := exists_row w hrows id hpos hfirst hlast
      refine ⟨(id - w.span.first).toNat, ?_⟩
      rw [identify_eq_ok_iff_of_inRange w h]
      exact ⟨hrow, by omega, by omega⟩

/-- A table over every identifier, in which half of the rows are refused, and one from below
zero on with as many rows as can all be identified. -/
theorem identify_counts_widest :
    let every : Window := ⟨⟨minId, maxId⟩, RowCache.empty⟩
    let half : Window := ⟨⟨-5, maxId - 5⟩, RowCache.empty⟩
    every.rows = maxCount ∧ CountsThrough Empty every ∧
      (half.rows : Int) = maxId + 1 ∧ CountsThrough Empty half ∧
      ∃ row, half.identify row = (.ok (maxId - 5) : Except (ReadError Empty) Int) := by
  intro every half
  have hevery : every.span.InRange := ⟨by decide, by decide, by decide, by decide⟩
  have hhalf : half.span.InRange := ⟨by decide, by decide, by decide, by decide⟩
  have hrows : (half.rows : Int) = maxId + 1 := by decide
  have hcounts := identify_counts (ε := Empty) half hhalf
  refine ⟨by decide, identify_counts every hevery, hrows, hcounts, ?_⟩
  exact (hcounts.onto (Int.le_of_eq hrows) (maxId - 5)).mpr ⟨by decide, by decide, by decide⟩

end Window

end ConnectionLog
