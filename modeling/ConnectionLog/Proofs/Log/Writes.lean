import ConnectionLog.Log.Basic
import Mathlib.Data.List.Basic

/-!
What a write does to a log, said once for each kind of write, and the logs that
come of a run of writes. A write that fails leaves the log as it was.
-/
namespace ConnectionLog.Log

/-- All that a write which succeeds can do. -/
theorem write_cases (log log' : Log) (w : Write) (outcome : Outcome)
    (h : log.write w = .ok (outcome, log')) :
    (∃ path, w = .register path ∧ outcome = .id (log.register path).1 ∧
      log' = (log.register path).2) ∨
    (∃ c, w = .append c ∧ (log.lastId : Int) + 1 ≤ maxId ∧
      outcome = .id ((log.lastId : Int) + 1) ∧
      log' = ⟨log.apps, c.entry ((log.lastId : Int) + 1) :: log.entries, log.lastId + 1⟩) ∨
    (∃ before, w = .prune before ∧ outcome = .count (log.prune before).1 ∧
      log' = ⟨log.apps, log.entries.filter fun e => before ≤ e.id, log.lastId⟩) ∨
    (w = .clear ∧ outcome = .done ∧ log' = ⟨[], [], log.lastId⟩) := by
  cases w with
  | register path =>
    simp only [write, Except.ok.injEq, Prod.mk.injEq] at h
    exact Or.inl ⟨path, rfl, h.1.symm, h.2.symm⟩
  | append c =>
    refine Or.inr (Or.inl ⟨c, rfl, ?_⟩)
    simp only [write, append, push] at h
    by_cases hfull : maxId < (log.lastId : Int) + 1
    · rw [if_pos hfull] at h
      exact nomatch h
    · rw [if_neg hfull] at h
      simp only [Except.map, Except.ok.injEq, Prod.mk.injEq] at h
      exact ⟨by omega, h.1.symm, h.2.symm⟩
  | prune before =>
    simp only [write, Except.ok.injEq, Prod.mk.injEq] at h
    exact Or.inr (Or.inr (Or.inl ⟨before, rfl, h.1.symm, h.2.symm⟩))
  | clear =>
    simp only [write, Except.ok.injEq, Prod.mk.injEq] at h
    exact Or.inr (Or.inr (Or.inr ⟨rfl, h.1.symm, h.2.symm⟩))

theorem register_entries (log : Log) (path : String) :
    (log.register path).2.entries = log.entries := by
  unfold register
  cases log.appOf? path <;> rfl

theorem register_lastId (log : Log) (path : String) :
    (log.register path).2.lastId = log.lastId := by
  unfold register
  cases log.appOf? path <;> rfl

/-- What holds of a log, and of what every successful write makes of it, holds of it
after any write. -/
theorem after_induct (P : Log → Prop) (log : Log) (w : Write) (h : P log)
    (hw : ∀ outcome log', log.write w = .ok (outcome, log') → P log') : P (log.after w) := by
  unfold after
  cases hwrite : log.write w with
  | ok result => exact hw result.1 result.2 hwrite
  | error fault => exact h

def run (writes : List Write) : Log := writes.foldl after empty

theorem run_append_singleton (writes : List Write) (w : Write) :
    run (writes ++ [w]) = (run writes).after w := by
  simp only [run, List.foldl_append, List.foldl_cons, List.foldl_nil]

end ConnectionLog.Log
