import ConnectionLog.Span
import Mathlib.Data.List.Basic

/-!
The identifiers of a table, row by row. A span whose bounds leave room for the
count of its rows lists every identifier between them once, in order, and the
listing agrees with the identifier that a row stands for.
-/
namespace ConnectionLog.Span

def idsFrom (first : Int) (count : Nat) : List Int :=
  (List.range count).map fun i : Nat => first + (i : Int)

def ids (s : Span) : List Int := idsFrom s.first s.rows

/-- The bounds of a log are such: none of its spans has more rows than can be
counted. -/
def Countable (s : Span) : Prop := minId < s.first ∧ 0 ≤ s.last ∧ s.last ≤ maxId

@[simp] theorem length_idsFrom (first : Int) (count : Nat) :
    (idsFrom first count).length = count := by
  simp [idsFrom]

@[simp] theorem idsFrom_zero (first : Int) : idsFrom first 0 = [] := rfl

theorem idsFrom_succ (first : Int) (count : Nat) :
    idsFrom first (count + 1) = first :: idsFrom (first + 1) count := by
  unfold idsFrom
  rw [List.range_succ_eq_map, List.map_cons, List.map_map]
  congr 1
  · omega
  · apply List.map_congr_left
    intro i _
    simp only [Function.comp_apply]
    omega

theorem idsFrom_add (first : Int) (n k : Nat) :
    idsFrom first (n + k) = idsFrom first n ++ idsFrom (first + n) k := by
  induction n generalizing first with
  | zero => simp
  | succ n ih =>
    rw [show n + 1 + k = (n + k) + 1 by omega, idsFrom_succ, idsFrom_succ, ih,
      List.cons_append]
    congr 3
    omega

/-- What comes after one identifier up to another goes on after that. -/
theorem idsFrom_append_idsFrom (a b c : Int) (hab : a ≤ b) (hbc : b ≤ c) :
    idsFrom (a + 1) (b - a).toNat ++ idsFrom (b + 1) (c - b).toNat =
      idsFrom (a + 1) (c - a).toNat := by
  have hnext : a + 1 + ((b - a).toNat : Int) = b + 1 := by omega
  rw [← hnext, ← idsFrom_add]
  congr 1
  omega

theorem drop_idsFrom (first : Int) (n k : Nat) :
    (idsFrom first n).drop k = idsFrom (first + k) (n - k) := by
  induction k generalizing first n with
  | zero => simp
  | succ k ih =>
    cases n with
    | zero => simp
    | succ n =>
      rw [idsFrom_succ, List.drop_succ_cons, ih, Nat.add_sub_add_right]
      congr 1
      omega

theorem take_idsFrom (first : Int) (n k : Nat) :
    (idsFrom first n).take k = idsFrom first (min k n) := by
  unfold idsFrom
  rw [← List.map_take, List.take_range]

theorem getLast?_idsFrom (first : Int) (n : Nat) :
    (idsFrom first (n + 1)).getLast? = some (first + n) := by
  rw [idsFrom_add]
  simp [idsFrom_succ]

theorem mem_idsFrom (first : Int) (count : Nat) (id : Int) :
    id ∈ idsFrom first count ↔ first ≤ id ∧ id < first + count := by
  simp only [idsFrom, List.mem_map, List.mem_range]
  constructor
  · rintro ⟨i, hi, rfl⟩
    omega
  · rintro ⟨hfirst, hlast⟩
    exact ⟨(id - first).toNat, by omega, by omega⟩

theorem pairwise_idsFrom (first : Int) (count : Nat) :
    (idsFrom first count).Pairwise (· < ·) := by
  induction count generalizing first with
  | zero => simp
  | succ count ih =>
    rw [idsFrom_succ, List.pairwise_cons]
    refine ⟨?_, ih (first + 1)⟩
    intro id hid
    have h := (mem_idsFrom (first + 1) count id).mp hid
    omega

@[simp] theorem length_ids (s : Span) : s.ids.length = s.rows := length_idsFrom _ _

/-- A countable span that is not empty has as many rows as its bounds say. -/
theorem rows_of_countable (s : Span) (hs : s.Countable) (hlast : 0 < s.last) :
    (s.rows : Int) = max 0 (s.last + 1 - s.first) := by
  obtain ⟨hfirst, -, hmax⟩ := hs
  simp only [rows, isEmpty, minId, maxId, maxCount] at *
  by_cases hinv : s.last < s.first
  · simp only [hinv, decide_true, Bool.or_true, if_true]
    omega
  · have hnot : ¬ s.last ≤ 0 := by omega
    simp only [hinv, hnot, decide_false, Bool.or_false, Bool.false_eq_true, if_false]
    omega

/-- A row stands for its place counted from the first identifier. -/
theorem id?_eq_some_iff (s : Span) (row : Nat) (id : Int) :
    s.id? row = some id ↔
      row < s.rows ∧ (row : Int) ≤ maxId ∧ s.first + row ≤ maxId ∧ id = s.first + row := by
  unfold id?
  split
  · rename_i h
    simp only [Option.some.injEq]
    constructor
    · intro hid
      exact ⟨h.1, h.2.1, h.2.2, hid.symm⟩
    · intro hid
      exact hid.2.2.2.symm
  · rename_i h
    simp only [reduceCtorEq, false_iff]
    intro hid
    exact h ⟨hid.1, hid.2.1, hid.2.2.1⟩

end ConnectionLog.Span
