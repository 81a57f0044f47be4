import ConnectionLog.Proofs.Plan.Exact
import ConnectionLog.Proofs.Span.Ids

/-!
Plans and the rows of a table. Identifiers that are appended come in behind the rows there
are, and a table of two rows or more is told just that; a table of one row is reset. Edits
take away no more rows than there are and bring in none behind a gap, unless the old span
ends below zero. Such a span has no rows, but it is compared with the new one all the same.
-/
namespace ConnectionLog

namespace Span

def extend (s : Span) (k : Nat) : Span := ⟨s.first, s.last + k⟩

theorem rows_of_last_nonpos (s : Span) (h : s.last ≤ 0) : s.rows = 0 := by
  rw [rows, isEmpty, decide_eq_true h]
  rfl

theorem rows_of_last_pos (s : Span) (hpos : 0 < s.last) (hle : s.first ≤ s.last) :
    s.rows = min ((s.last - s.first).toNat + 1) maxCount := by
  have hfull : ¬ s.last ≤ 0 := by omega
  have hproper : ¬ s.last < s.first := by omega
  rw [rows, isEmpty, decide_eq_false hfull, decide_eq_false hproper]
  rfl

theorem rows_of_first_pos (s : Span) (hfirst : 1 ≤ s.first) (hle : s.first ≤ s.last)
    (hmax : s.last ≤ maxId) : (s.rows : Int) = s.last - s.first + 1 := by
  have hcount : s.Countable := ⟨by simp only [minId]; omega, by omega, hmax⟩
  rw [rows_of_countable s hcount (by omega)]
  omega

theorem rows_extend (s : Span) (k : Nat) (hfirst : 1 ≤ s.first) (hle : s.first ≤ s.last)
    (hmax : s.last + k ≤ maxId) : (s.extend k).rows = s.rows + k := by
  have hold := rows_of_first_pos s hfirst hle (by omega)
  have hnew := rows_of_first_pos (s.extend k) hfirst (by simp only [extend]; omega) hmax
  simp only [extend] at hnew ⊢
  omega

/-- The identifiers there were are kept in front. -/
theorem ids_extend (s : Span) (k : Nat) (hfirst : 1 ≤ s.first) (hle : s.first ≤ s.last)
    (hmax : s.last + k ≤ maxId) : (s.extend k).ids = s.ids ++ idsFrom (s.last + 1) k := by
  have hrows := rows_of_first_pos s hfirst hle (by omega)
  have hnext : s.last + 1 = s.first + (s.rows : Int) := by omega
  rw [ids, ids, rows_extend s k hfirst hle hmax, hnext]
  exact idsFrom_add s.first s.rows k

end Span

namespace Plan

/-- A table of two rows or more grows by what is appended. -/
theorem between_extend_of_two (s : Span) (k : Nat) (hfirst : 1 ≤ s.first)
    (hlast : s.first < s.last) (hk : 0 < k) (hmax : s.last + k ≤ maxId) :
    between s (s.extend k) = single (.grow (s.last + k) s.rows k) := by
  have hrows := Span.rows_of_first_pos s hfirst (Int.le_of_lt hlast) (by omega)
  have hgrow : s.last < (s.extend k).last := by simp only [Span.extend]; omega
  have hne : s ≠ s.extend k := by
    intro h
    rw [← h] at hgrow
    exact Int.lt_irrefl _ hgrow
  have hover : ¬ NoOverlap s (s.extend k) := by
    simp only [NoOverlap, Span.extend]
    omega
  have hrow : (s.last - (s.extend k).first).natAbs + 1 = s.rows := by
    simp only [Span.extend]
    omega
  have hadded : ((s.extend k).last - s.last).natAbs = k := by
    simp only [Span.extend]
    omega
  rw [between, if_neg hne, if_neg hover, growTo_of_lt s (s.extend k) hgrow, hrow, hadded,
    trimTo_of_not_lt s (s.extend k) (Int.lt_irrefl _)]
  rfl

/-- The one row there is stands for the last identifier of the old span, and that one does
not count as left. -/
theorem between_extend_of_one (s : Span) (k : Nat) (hlast : s.first = s.last) (hk : 0 < k) :
    between s (s.extend k) = single (.reset (s.extend k)) := by
  refine between_of_noOverlap s (s.extend k) ?_ ?_
  · intro h
    have hsame := congrArg Span.last h
    simp only [Span.extend] at hsame
    omega
  · simp only [NoOverlap, Span.extend]
    omega

/-- Identifiers that are appended come in behind all the rows there are. The plan says so,
by one grow at the end of the table, exactly if the table had two rows or more; a table of
one row is reset. -/
theorem between_extend_iff (s : Span) (k : Nat) (hfirst : 1 ≤ s.first) (hle : s.first ≤ s.last)
    (hk : 0 < k) (hmax : s.last + k ≤ maxId) :
    (s.extend k).rows = s.rows + k ∧
      (s.extend k).ids = s.ids ++ Span.idsFrom (s.last + 1) k ∧
      (between s (s.extend k) = single (.grow (s.last + k) s.rows k) ↔ 2 ≤ s.rows) ∧
      (s.rows = 1 → between s (s.extend k) = single (.reset (s.extend k))) := by
  have hrows := Span.rows_of_first_pos s hfirst hle (by omega)
  refine ⟨s.rows_extend k hfirst hle hmax, s.ids_extend k hfirst hle hmax, ⟨?_, ?_⟩, ?_⟩
  · intro hgrow
    by_contra hone
    rw [between_extend_of_one s k (by omega) hk] at hgrow
    cases hgrow
  · intro htwo
    exact between_extend_of_two s k hfirst (by omega) hk hmax
  · intro hone
    exact between_extend_of_one s k (by omega) hk

/-- The last identifier there can be comes in behind two others. -/
theorem between_extend_iff_last :
    let s : Span := ⟨maxId - 2, maxId - 1⟩
    (1 ≤ s.first ∧ s.first ≤ s.last ∧ s.last + (1 : Nat) ≤ maxId) ∧
      (s.extend 1).ids = [maxId - 2, maxId - 1, maxId] ∧
      between s (s.extend 1) = single (.grow maxId 2 1) := by
  intro s
  have hbounds : 1 ≤ s.first ∧ s.first ≤ s.last ∧ s.last + (1 : Nat) ≤ maxId := by decide
  obtain ⟨-, hids, hgrow, -⟩ :=
    between_extend_iff s 1 hbounds.1 hbounds.2.1 Nat.one_pos hbounds.2.2
  exact ⟨hbounds, hids, hgrow.mpr (by decide)⟩

/-- One row, and one identifier more behind it. -/
theorem between_extend_single :
    let s : Span := ⟨5, 5⟩
    (1 ≤ s.first ∧ s.first ≤ s.last ∧ s.last + (1 : Nat) ≤ maxId) ∧ s.rows = 1 ∧
      between s (s.extend 1) = single (.reset ⟨5, 6⟩) ∧
      between s (s.extend 1) ≠ single (.grow (s.last + (1 : Nat)) s.rows 1) := by
  decide

end Plan

namespace Edit

/-- Whether an edit can be made to a table with the rows of a span. A trim needs the rows
that it takes away, and a grow all the rows that it comes in behind. -/
def Fits (s : Span) : Edit → Prop
  | .trim _ removed => removed ≤ s.rows
  | .grow _ row _ => row ≤ s.rows
  | _ => True

def FitAll : Span → List Edit → Prop
  | _, [] => True
  | s, e :: rest => e.Fits s ∧ FitAll (s.apply e) rest

end Edit

namespace Plan

/-- The old span ends below zero, and the new one has a part of it in front. -/
def ContinuesBelowZero (old new : Span) : Prop :=
  old ≠ new ∧ old.last < 0 ∧ old.first ≤ new.first ∧ new.first < old.last ∧ old.last ≤ new.last

/-- The spans that go on below zero are those that overlap another though they end there. -/
theorem continuesBelowZero_iff (old new : Span) :
    ContinuesBelowZero old new ↔ old ≠ new ∧ old.last < 0 ∧ ¬ NoOverlap old new := by
  refine and_congr_right fun _ => and_congr_right fun hlast => ?_
  simp only [NoOverlap]
  omega

/-- The rows that a trim takes away are in front of the old last one. -/
theorem trim_fits (old new : Span) (hold : old.InRange) (hpos : 0 < old.last)
    (hfirst : old.first < new.first) (hinside : new.first < old.last) :
    (Edit.trim new.first (new.first - old.first).natAbs).Fits old := by
  have hlow := hold.minId_le_first
  have hhigh := hold.last_le
  rw [Edit.Fits, Span.rows_of_last_pos old hpos (by omega)]
  simp only [minId, maxId, maxCount] at *
  omega

/-- A grow comes in behind the last row of what a trim leaves. -/
theorem grow_fits (old new : Span) (hnew : new.InRange) (hpos : 0 < old.last)
    (hinside : new.first < old.last) (hlast : old.last < new.last) :
    (Edit.grow new.last ((old.last - new.first).natAbs + 1) (new.last - old.last).natAbs).Fits
      ⟨new.first, old.last⟩ := by
  have hlow := hnew.minId_le_first
  have hhigh := hnew.last_le
  rw [Edit.Fits, Span.rows_of_last_pos ⟨new.first, old.last⟩ hpos (Int.le_of_lt hinside)]
  simp only [minId, maxId, maxCount] at *
  omega

theorem fitAll_of_overlap (old new : Span) (hold : old.InRange) (hnew : new.InRange)
    (hpos : 0 < old.last) (h : ¬ NoOverlap old new) :
    Edit.FitAll old ((trimTo old new).toList ++ (growTo old new).toList) := by
  obtain ⟨hfirst, hinside, hlast, -⟩ := not_noOverlap old new h
  have htrim := trim_fits old new hold hpos
  have hgrow := grow_fits old new hnew hpos hinside
  by_cases htrims : old.first < new.first <;> by_cases hgrows : old.last < new.last
  · rw [trimTo_of_lt old new htrims, growTo_of_lt old new hgrows]
    exact ⟨htrim htrims hinside, hgrow hgrows, trivial⟩
  · rw [trimTo_of_lt old new htrims, growTo_of_not_lt old new hgrows]
    exact ⟨htrim htrims hinside, trivial⟩
  · have hsame : old.first = new.first := by omega
    rw [trimTo_of_not_lt old new htrims, growTo_of_lt old new hgrows]
    exact ⟨hsame ▸ hgrow hgrows, trivial⟩
  · rw [trimTo_of_not_lt old new htrims, growTo_of_not_lt old new hgrows]
    trivial

/-- A table without rows has nothing to trim, and nothing for a grow to come in behind. -/
theorem not_fitAll_of_continues (old new : Span) (h : ContinuesBelowZero old new) :
    ¬ Edit.FitAll old ((trimTo old new).toList ++ (growTo old new).toList) := by
  obtain ⟨hne, hlast, hover⟩ := (continuesBelowZero_iff old new).mp h
  have hrows := old.rows_of_last_nonpos (Int.le_of_lt hlast)
  by_cases htrims : old.first < new.first
  · rw [trimTo_of_lt old new htrims]
    rintro ⟨hfits, -⟩
    rw [Edit.Fits, hrows] at hfits
    omega
  · have hgrows := (trims_or_grows old new hne hover).resolve_left htrims
    rw [trimTo_of_not_lt old new htrims, growTo_of_lt old new hgrows]
    rintro ⟨hfits, -⟩
    rw [Edit.Fits, hrows] at hfits
    omega

/-- An empty span is reset, unless it goes on below zero. -/
theorem reset_iff_of_isEmpty (old new : Span) (hempty : old.isEmpty = true) (hne : old ≠ new) :
    between old new = single (.reset new) ↔ ¬ ContinuesBelowZero old new := by
  have hlast : old.last ≤ 0 := of_decide_eq_true hempty
  rw [continuesBelowZero_iff]
  constructor
  · intro hreset h
    exact h.2.2 (noOverlap_of_between_eq old new new hreset)
  · intro hnot
    apply between_of_noOverlap old new hne
    by_contra hover
    have hzero := (not_noOverlap old new hover).2.2.2
    exact hnot ⟨hne, by omega, hover⟩

/-- The edits fit exactly if the span does not go on below zero. -/
theorem fitAll_edits_iff (old new : Span) (hold : old.InRange) (hnew : new.InRange) :
    Edit.FitAll old (between old new).edits ↔ ¬ ContinuesBelowZero old new := by
  by_cases hne : old = new
  · subst hne
    rw [edits_between_self]
    exact iff_of_true trivial fun h => h.1 rfl
  · by_cases hover : NoOverlap old new
    · rw [edits_between_of_noOverlap old new hne hover, continuesBelowZero_iff]
      exact iff_of_true ⟨trivial, trivial⟩ fun h => h.2.2 hover
    · rw [edits_between_of_overlap old new hne hover]
      by_cases hlast : old.last < 0
      · have h := (continuesBelowZero_iff old new).mpr ⟨hne, hlast, hover⟩
        exact iff_of_false (not_fitAll_of_continues old new h) (not_not_intro h)
      · have hzero := (not_noOverlap old new hover).2.2.2
        have hfits := fitAll_of_overlap old new hold hnew (by omega) hover
        exact iff_of_true hfits fun h => hlast h.2.1

/-- A table of an empty span is reset, and between any two spans every edit fits the rows
there are, exactly if the new span does not go on from an old one that ends below zero. -/
theorem fits_between_iff (old new : Span) (hold : old.InRange) (hnew : new.InRange) :
    (old.isEmpty = true → old ≠ new →
        (between old new = single (.reset new) ↔ ¬ ContinuesBelowZero old new)) ∧
      (Edit.FitAll old (between old new).edits ↔ ¬ ContinuesBelowZero old new) :=
  ⟨reset_iff_of_isEmpty old new, fitAll_edits_iff old new hold hnew⟩

/-- A span that ends below zero and is left behind, and the widest spans that move at both
ends. -/
theorem fits_between_iff_moved :
    between ⟨-5, -1⟩ ⟨1, 3⟩ = single (.reset ⟨1, 3⟩) ∧
      Edit.FitAll ⟨minId, maxId - 1⟩
        [.trim (minId + 1) 1, .grow maxId (maxCount - 1) 1] := by
  have hbelow : Span.InRange ⟨-5, -1⟩ := ⟨by decide, by decide, by decide, by decide⟩
  have habove : Span.InRange ⟨1, 3⟩ := ⟨by decide, by decide, by decide, by decide⟩
  have hold : Span.InRange ⟨minId, maxId - 1⟩ := ⟨by decide, by decide, by decide, by decide⟩
  have hnew : Span.InRange ⟨minId + 1, maxId⟩ := ⟨by decide, by decide, by decide, by decide⟩
  have hedits : (between ⟨minId, maxId - 1⟩ ⟨minId + 1, maxId⟩).edits =
      [.trim (minId + 1) 1, .grow maxId (maxCount - 1) 1] := by decide
  obtain ⟨hreset, -⟩ := fits_between_iff ⟨-5, -1⟩ ⟨1, 3⟩ hbelow habove
  obtain ⟨-, hfits⟩ := fits_between_iff ⟨minId, maxId - 1⟩ ⟨minId + 1, maxId⟩ hold hnew
  refine ⟨(hreset rfl (by decide)).mpr fun h => ?_, ?_⟩
  · exact absurd h.2.2.2.1 (by decide)
  · rw [← hedits]
    exact hfits.mpr fun h => absurd h.2.1 (by decide)

/-- A table without rows is told to take one away, and to put more behind four others. -/
theorem fits_between_belowZero :
    let old : Span := ⟨-5, -1⟩
    let new : Span := ⟨-4, 3⟩
    old.isEmpty = true ∧ old ≠ new ∧ old.rows = 0 ∧
      between old new = ⟨.trim (-4) 1, some (.grow 3 4 4)⟩ ∧
      between old new ≠ single (.reset new) ∧ ¬ Edit.FitAll old (between old new).edits := by
  intro old new
  have hrows : old.rows = 0 := rfl
  refine ⟨rfl, by decide, hrows, by decide, by decide, ?_⟩
  rintro ⟨hfits, -⟩
  exact Nat.not_succ_le_zero 0 (hrows ▸ hfits)

end Plan

end ConnectionLog
