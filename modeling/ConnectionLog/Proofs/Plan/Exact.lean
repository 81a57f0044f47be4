import ConnectionLog.Proofs.Plan.Between

/-!
A plan is exact over all bounds there can be. It leads to the new span, it is empty only
if there is nothing to do, and it takes one of five forms. Its counts are distances
between bounds of 64 bits, so that they can be computed as unsigned numbers of 64 bits;
a row that comes after as many rows as there are identifiers is never asked for.
-/
namespace ConnectionLog

structure Span.InRange (s : Span) : Prop where
  minId_le_first : minId ≤ s.first
  first_le : s.first ≤ maxId
  minId_le_last : minId ≤ s.last
  last_le : s.last ≤ maxId

namespace Plan

def count? (n : Nat) : Option Nat := if n ≤ maxCount then some n else none

def distance? (a b : Int) : Option Nat := count? (a - b).natAbs

def checkedGrow? (old new : Span) (added : Nat) : Option (Option Edit) :=
  if 0 < added then do
    let row ← count? ((← distance? old.last new.first) + 1)
    return some (.grow new.last row added)
  else some none

/-- The plan between two spans, with every count computed in 64 bits. There is none if
one of them does not fit. -/
def checked? (old new : Span) : Option Plan :=
  if old = new then some (single .keep)
  else if NoOverlap old new then some (single (.reset new))
  else do
    let removed ← distance? new.first old.first
    let added ← distance? new.last old.last
    let trim := if 0 < removed then some (Edit.trim new.first removed) else none
    let grow ← checkedGrow? old new added
    match trim, grow with
    | some t, some g => return ⟨t, some g⟩
    | some t, none => return single t
    | none, some g => return single g
    | none, none => return single .keep

theorem count?_of_le (n : Nat) (h : n ≤ maxCount) : count? n = some n := if_pos h

theorem distance?_of_le (a b : Int) (hb : minId ≤ b) (hba : b ≤ a) (ha : a ≤ maxId) :
    distance? a b = some (a - b).natAbs := by
  refine count?_of_le _ ?_
  simp only [minId, maxId, maxCount] at *
  omega

theorem trim_eq_trimTo (old new : Span) (h : old.first ≤ new.first) :
    (if 0 < (new.first - old.first).natAbs then
      some (Edit.trim new.first (new.first - old.first).natAbs) else none) = trimTo old new := by
  by_cases htrim : old.first < new.first
  · rw [trimTo_of_lt old new htrim, if_pos (by omega)]
  · rw [trimTo_of_not_lt old new htrim, if_neg (by omega)]

/-- The row of a grow is at most the number of identifiers below the new last one. -/
theorem checkedGrow?_eq (old new : Span) (hnew : new.InRange) (hfirst : new.first < old.last)
    (hlast : old.last ≤ new.last) :
    checkedGrow? old new (new.last - old.last).natAbs = some (growTo old new) := by
  have hlow := hnew.minId_le_first
  have hhigh := hnew.last_le
  unfold checkedGrow?
  by_cases hgrow : old.last < new.last
  · have hrow : (old.last - new.first).natAbs + 1 ≤ maxCount := by
      simp only [minId, maxId, maxCount] at *
      omega
    rw [growTo_of_lt old new hgrow, if_pos (by omega),
      distance?_of_le old.last new.first hlow (by omega) (by omega)]
    simp only [Option.bind_eq_bind, Option.bind_some, count?_of_le _ hrow]
    rfl
  · rw [growTo_of_not_lt old new hgrow, if_neg (by omega)]

/-- No count that a plan is made of leaves 64 bits. -/
theorem checked?_eq (old new : Span) (hold : old.InRange) (hnew : new.InRange) :
    checked? old new = some (between old new) := by
  unfold checked? between
  by_cases hne : old = new
  · rw [if_pos hne, if_pos hne]
  · rw [if_neg hne, if_neg hne]
    by_cases h : NoOverlap old new
    · rw [if_pos h, if_pos h]
    · obtain ⟨hfirst, hinside, hlast, -⟩ := not_noOverlap old new h
      rw [if_neg h, if_neg h,
        distance?_of_le _ _ hold.minId_le_first hfirst hnew.first_le,
        distance?_of_le _ _ hold.minId_le_last hlast hnew.last_le]
      simp only [Option.bind_eq_bind, Option.bind_some,
        trim_eq_trimTo old new hfirst, checkedGrow?_eq old new hnew hinside hlast]
      cases trimTo old new <;> cases growTo old new <;> rfl

def IsTrim (old new : Span) (e : Edit) : Prop :=
  ∃ removed : Nat, e = .trim new.first removed ∧ 0 < removed ∧
    old.first + removed = new.first

/-- A grow from one span to another. It starts at the row that comes after the old last
identifier in a table that starts with the new first one. -/
def IsGrow (old new : Span) (e : Edit) : Prop :=
  ∃ row added : Nat, e = .grow new.last row added ∧ 0 < added ∧
    old.last + added = new.last ∧ new.first + row = old.last + 1

theorem isTrim_of_trimTo (old new : Span) (e : Edit) (h : trimTo old new = some e) :
    IsTrim old new e := by
  by_cases htrim : old.first < new.first
  · rw [trimTo_of_lt old new htrim] at h
    cases h
    exact ⟨_, rfl, by omega, by omega⟩
  · rw [trimTo_of_not_lt old new htrim] at h
    exact nomatch h

theorem isGrow_of_growTo (old new : Span) (e : Edit) (hfirst : new.first < old.last)
    (h : growTo old new = some e) : IsGrow old new e := by
  by_cases hgrow : old.last < new.last
  · rw [growTo_of_lt old new hgrow] at h
    cases h
    exact ⟨_, _, rfl, by omega, by omega, by omega⟩
  · rw [growTo_of_not_lt old new hgrow] at h
    exact nomatch h

inductive Form (old new : Span) : List Edit → Prop
  | keep : Form old new []
  | reset : Form old new [.reset new]
  | trim (t : Edit) : IsTrim old new t → Form old new [t]
  | grow (g : Edit) : IsGrow old new g → Form old new [g]
  | trimGrow (t g : Edit) : IsTrim old new t → IsGrow old new g → Form old new [t, g]

/-- The edits take one of the five forms. -/
theorem form_between (old new : Span) : Form old new (between old new).edits := by
  by_cases hne : old = new
  · subst hne
    rw [edits_between_self]
    exact Form.keep
  · by_cases h : NoOverlap old new
    · rw [edits_between_of_noOverlap old new hne h]
      exact Form.reset
    · have hinside := (not_noOverlap old new h).2.1
      rw [edits_between_of_overlap old new hne h]
      cases htrim : trimTo old new with
      | none =>
        cases hgrow : growTo old new with
        | none => exact Form.keep
        | some g => exact Form.grow g (isGrow_of_growTo old new g hinside hgrow)
      | some t =>
        have ht := isTrim_of_trimTo old new t htrim
        cases hgrow : growTo old new with
        | none => exact Form.trim t ht
        | some g => exact Form.trimGrow t g ht (isGrow_of_growTo old new g hinside hgrow)

/-- There is nothing to do only between equal spans. -/
theorem edits_between_eq_nil_iff (old new : Span) :
    (between old new).edits = [] ↔ old = new := by
  constructor
  · intro h
    by_contra hne
    exact edits_between_ne_nil old new hne h
  · rintro rfl
    exact edits_between_self old

theorem isUnchanged_between_iff (old new : Span) :
    (between old new).isUnchanged = true ↔ old = new := by
  rw [isUnchanged, decide_eq_true_eq]
  constructor
  · intro hkeep
    by_contra hne
    by_cases h : NoOverlap old new
    · rw [between, if_neg hne, if_pos h] at hkeep
      contradiction
    · have hedits := edits_between_ne_nil old new hne
      rw [edits_between_of_overlap old new hne h] at hedits
      rw [between, if_neg hne, if_neg h] at hkeep
      by_cases htrim : old.first < new.first
      · rw [trimTo_of_lt old new htrim] at hkeep
        cases hgrow : growTo old new <;> rw [hgrow] at hkeep <;> contradiction
      · by_cases hgrow : old.last < new.last
        · rw [trimTo_of_not_lt old new htrim, growTo_of_lt old new hgrow] at hkeep
          contradiction
        · rw [trimTo_of_not_lt old new htrim, growTo_of_not_lt old new hgrow] at hedits
          exact absurd rfl hedits
  · rintro rfl
    rw [between, if_pos rfl]
    rfl

structure Canonical (old new : Span) (p : Plan) : Prop where
  leads : p.edits.foldl Span.apply old = new
  unchanged : p.isUnchanged = true ↔ p.edits = []
  nothing : p.edits = [] ↔ old = new
  form : Form old new p.edits
  counted : checked? old new = some p

/-- A plan between spans of 64 bits is right in every respect, and none of its counts overflows. -/
theorem between_canonical (old new : Span) (hold : old.InRange) (hnew : new.InRange) :
    Canonical old new (between old new) where
  leads := foldl_apply_edits old new
  unchanged := by rw [isUnchanged_between_iff, edits_between_eq_nil_iff]
  nothing := edits_between_eq_nil_iff old new
  form := form_between old new
  counted := checked?_eq old new hold hnew

/-- One identifier comes in after as many rows as can be counted. -/
theorem between_canonical_widest :
    between ⟨minId, maxId - 1⟩ ⟨minId, maxId⟩ = single (.grow maxId maxCount 1) ∧
      Canonical ⟨minId, maxId - 1⟩ ⟨minId, maxId⟩ (single (.grow maxId maxCount 1)) := by
  have hplan : between ⟨minId, maxId - 1⟩ ⟨minId, maxId⟩ = single (.grow maxId maxCount 1) := by
    decide
  have hold : Span.InRange ⟨minId, maxId - 1⟩ :=
    ⟨by decide, by decide, by decide, by decide⟩
  have hnew : Span.InRange ⟨minId, maxId⟩ :=
    ⟨by decide, by decide, by decide, by decide⟩
  refine ⟨hplan, ?_⟩
  rw [← hplan]
  exact between_canonical ⟨minId, maxId - 1⟩ ⟨minId, maxId⟩ hold hnew

end Plan

end ConnectionLog
