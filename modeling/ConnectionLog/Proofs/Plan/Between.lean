import ConnectionLog.Plan
import Mathlib.Data.List.Basic

/-!
What a plan between two spans consists of. Equal spans need no edit, spans
without a common part one reset, and all others a trim in front of a grow, of
which at least one is there. Made in order, the edits lead to the new span.
-/
namespace ConnectionLog.Plan

theorem between_self (s : Span) : between s s = single .keep := if_pos rfl

theorem between_of_noOverlap (old new : Span) (hne : old ≠ new) (h : NoOverlap old new) :
    between old new = single (.reset new) := by
  rw [between, if_neg hne, if_pos h]

theorem edits_between_self (s : Span) : (between s s).edits = [] := by
  simp [between, edits, single]

theorem edits_between_of_noOverlap (old new : Span) (hne : old ≠ new)
    (h : NoOverlap old new) : (between old new).edits = [.reset new] := by
  simp [between, edits, single, hne, h]

theorem not_noOverlap (old new : Span) (h : ¬ NoOverlap old new) :
    old.first ≤ new.first ∧ new.first < old.last ∧ old.last ≤ new.last ∧ old.last ≠ 0 := by
  unfold NoOverlap at h
  omega

/-- Overlapping spans are led to each other by a trim and a grow, each if it is needed. -/
theorem edits_between_of_overlap (old new : Span) (hne : old ≠ new)
    (h : ¬ NoOverlap old new) :
    (between old new).edits = (trimTo old new).toList ++ (growTo old new).toList := by
  unfold between
  rw [if_neg hne, if_neg h]
  by_cases htrim : old.first < new.first <;> by_cases hgrow : old.last < new.last <;>
    simp [edits, single, trimTo, growTo, htrim, hgrow]

theorem trimTo_of_lt (old new : Span) (h : old.first < new.first) :
    trimTo old new = some (.trim new.first (new.first - old.first).natAbs) :=
  if_pos h

theorem trimTo_of_not_lt (old new : Span) (h : ¬ old.first < new.first) :
    trimTo old new = none :=
  if_neg h

theorem growTo_of_lt (old new : Span) (h : old.last < new.last) :
    growTo old new =
      some (.grow new.last ((old.last - new.first).natAbs + 1) (new.last - old.last).natAbs) :=
  if_pos h

theorem growTo_of_not_lt (old new : Span) (h : ¬ old.last < new.last) :
    growTo old new = none :=
  if_neg h

/-- Of two bounds at least one moves up. -/
theorem trims_or_grows (old new : Span) (hne : old ≠ new) (h : ¬ NoOverlap old new) :
    old.first < new.first ∨ old.last < new.last := by
  obtain ⟨hfirst, -, hlast, -⟩ := not_noOverlap old new h
  by_contra hnot
  apply hne
  obtain ⟨a, b⟩ := old
  obtain ⟨c, d⟩ := new
  simp only at hfirst hlast hnot
  congr 1 <;> omega

/-- A span that changes at all is led to the new one by at least one edit. -/
theorem edits_between_ne_nil (old new : Span) (hne : old ≠ new) :
    (between old new).edits ≠ [] := by
  by_cases h : NoOverlap old new
  · rw [edits_between_of_noOverlap old new hne h]
    simp
  · rw [edits_between_of_overlap old new hne h]
    rcases trims_or_grows old new hne h with htrim | hgrow
    · simp [trimTo_of_lt old new htrim]
    · simp [growTo_of_lt old new hgrow]

/-- The edits of a plan lead from the old span to the new one. -/
theorem foldl_apply_edits (old new : Span) :
    (between old new).edits.foldl Span.apply old = new := by
  by_cases hne : old = new
  · subst hne
    rw [edits_between_self, List.foldl_nil]
  · by_cases h : NoOverlap old new
    · rw [edits_between_of_noOverlap old new hne h]
      rfl
    · rw [edits_between_of_overlap old new hne h]
      obtain ⟨hfirst, -, hlast, -⟩ := not_noOverlap old new h
      obtain ⟨a, b⟩ := old
      obtain ⟨c, d⟩ := new
      simp only at hfirst hlast
      by_cases htrim : a < c <;> by_cases hgrow : b < d <;>
        simp [trimTo, growTo, htrim, hgrow, Span.apply] <;> omega

theorem reset_not_mem_of_overlap (old new target : Span) (h : ¬ NoOverlap old new) :
    .reset target ∉ (between old new).edits := by
  by_cases hne : old = new
  · subst hne
    rw [edits_between_self]
    exact List.not_mem_nil
  · rw [edits_between_of_overlap old new hne h]
    by_cases htrim : old.first < new.first <;> by_cases hgrow : old.last < new.last <;>
      simp [trimTo, growTo, htrim, hgrow]

theorem noOverlap_of_between_eq (old new target : Span)
    (h : between old new = single (.reset target)) : NoOverlap old new := by
  by_contra hover
  apply reset_not_mem_of_overlap old new target hover
  rw [h]
  exact List.mem_cons_self

def Incremental (p : Plan) : Prop := ∀ target, .reset target ∉ p.edits

/-- Rows are kept exactly if the spans overlap or are the same. -/
theorem incremental_iff (old new : Span) :
    (between old new).Incremental ↔ old = new ∨ ¬ NoOverlap old new := by
  constructor
  · intro h
    by_contra hreset
    obtain ⟨hne, hno⟩ := not_or.mp hreset
    apply h new
    rw [edits_between_of_noOverlap old new hne (not_not.mp hno)]
    exact List.mem_singleton_self _
  · rintro (rfl | h) target
    · rw [edits_between_self]
      exact List.not_mem_nil
    · exact reset_not_mem_of_overlap old new target h

instance (old new : Span) : Decidable (between old new).Incremental :=
  decidable_of_iff _ (incremental_iff old new).symm

/-- Without a reset a plan is a trim in front of a grow, either of which may be missing. -/
theorem edits_of_incremental (old new : Span) (h : (between old new).Incremental) :
    (between old new).edits = (trimTo old new).toList ++ (growTo old new).toList := by
  by_cases hne : old = new
  · subst hne
    rw [edits_between_self, trimTo_of_not_lt old old (Int.lt_irrefl _),
      growTo_of_not_lt old old (Int.lt_irrefl _)]
    rfl
  · exact edits_between_of_overlap old new hne
      (((incremental_iff old new).mp h).resolve_left hne)

theorem last_le_of_incremental (old new : Span) (h : (between old new).Incremental) :
    old.last ≤ new.last := by
  rcases (incremental_iff old new).mp h with rfl | hoverlap
  · exact Int.le_refl _
  · exact (not_noOverlap old new hoverlap).2.2.1

end ConnectionLog.Plan
