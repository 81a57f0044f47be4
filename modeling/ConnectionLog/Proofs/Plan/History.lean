import ConnectionLog.Proofs.Files.Runs
import ConnectionLog.Proofs.Plan.Between
import Mathlib.Algebra.GroupWithZero.Nat

/-!
What a plan between two bounds of one log says about what was done to the log between
them. It is a reset exactly when fewer than two connections are left of the earlier log,
and otherwise it counts those that went and those that came.
-/
namespace ConnectionLog

namespace Edit

def removed : Edit → Nat
  | .trim _ removed => removed
  | _ => 0

def added : Edit → Nat
  | .grow _ _ added => added
  | _ => 0

end Edit

namespace Plan

def removed (p : Plan) : Nat := (p.edits.map Edit.removed).sum

def added (p : Plan) : Nat := (p.edits.map Edit.added).sum

/-- The rows that go are those below the new lower bound, and the rows that come are those
above the old upper one. -/
theorem counts_of_overlap (old new : Span) (h : ¬ NoOverlap old new) :
    ((between old new).removed : Int) = new.first - old.first ∧
      ((between old new).added : Int) = new.last - old.last := by
  obtain ⟨hfirst, -, hlast, -⟩ := not_noOverlap old new h
  rw [removed, added]
  by_cases hne : old = new
  · subst hne
    rw [edits_between_self]
    simp
  · rw [edits_between_of_overlap old new hne h]
    by_cases htrim : old.first < new.first <;> by_cases hgrow : old.last < new.last <;>
      simp [trimTo, growTo, htrim, hgrow, Edit.removed, Edit.added] <;> omega

end Plan

namespace Log

/-- Two connections of a log are left exactly when its bounds and the later ones have a
part in common that is of use to a table. -/
theorem noOverlap_iff (log : Log) (writes : List Write) (h : log.Unbroken) :
    Plan.NoOverlap log.span (log.afterAll writes).span ↔
      (log.survivors (log.afterAll writes)).length < 2 := by
  have hlater := afterAll_unbroken log writes h
  have hcount := length_survivors log writes h
  have hfirst := one_le_low log h
  have hbounds := afterAll_bounds log writes
  by_cases hnil : log.entries = []
  · rw [span_of_nil log hnil, survivors, hnil]
    simp [Plan.NoOverlap, Span.empty]
  · have hle := (low_le_lastId_iff log).mpr hnil
    rw [span_of_ne_nil log h hnil]
    by_cases hnil' : (log.afterAll writes).entries = []
    · have hgone := (low_le_lastId_iff (log.afterAll writes)).not.mpr (not_not.mpr hnil')
      rw [span_of_nil _ hnil']
      simp only [Plan.NoOverlap, Span.empty]
      omega
    · rw [span_of_ne_nil _ hlater hnil']
      simp only [Plan.NoOverlap]
      omega

/-- What a plan says about what became of a log, when so many connections were appended
to it. -/
structure Accounted (log later : Log) (plan : Plan) (appended : Nat) : Prop where
  unchanged : log.span = later.span → plan = .single .keep
  reset : log.span ≠ later.span →
    (plan = .single (.reset later.span) ↔ (log.survivors later).length < 2)
  incremental : 2 ≤ (log.survivors later).length →
    (∀ target, .reset target ∉ plan.edits) ∧ plan.removed = (log.lost later).length ∧
      plan.added = appended

/-- What the plan between two moments says is what the writes in between did. -/
theorem afterAll_accounted (log : Log) (writes : List Write) (appended : Nat)
    (h : log.Unbroken) (happended : (log.afterAll writes).lastId = log.lastId + appended) :
    log.Accounted (log.afterAll writes)
      (Plan.between log.span (log.afterAll writes).span) appended := by
  have hiff := noOverlap_iff log writes h
  refine ⟨?_, ?_, ?_⟩
  · intro hsame
    rw [← hsame, Plan.between_self]
  · intro hne
    rw [← hiff]
    exact ⟨Plan.noOverlap_of_between_eq _ _ _, Plan.between_of_noOverlap _ _ hne⟩
  · intro htwo
    have hover : ¬ Plan.NoOverlap log.span (log.afterAll writes).span := by
      rw [hiff]
      omega
    have hcount := length_survivors log writes h
    have hsplit := length_survivors_add_lost log (log.afterAll writes)
    have hlater := afterAll_unbroken log writes h
    have hbounds := afterAll_bounds log writes
    have hne : log.entries ≠ [] := List.ne_nil_of_length_pos (by omega)
    have hne' : (log.afterAll writes).entries ≠ [] := by
      rw [← low_le_lastId_iff]
      omega
    have hcounts := Plan.counts_of_overlap _ _ hover
    rw [span_of_ne_nil log h hne, span_of_ne_nil _ hlater hne'] at hcounts
    simp only [low] at hcounts hcount
    refine ⟨fun target => Plan.reset_not_mem_of_overlap _ _ target hover, ?_, ?_⟩
    · rw [span_of_ne_nil log h hne, span_of_ne_nil _ hlater hne']
      simp only [low]
      omega
    · rw [span_of_ne_nil log h hne, span_of_ne_nil _ hlater hne']
      simp only [low]
      omega

end Log

namespace OpenLog

/-- Whether a write appends a connection and succeeds, as a number. -/
def appends (log : OpenLog) (w : Log.Write) : Nat :=
  match w, log.call (.write w) with
  | .append _, .ok _ => 1
  | _, _ => 0

def appended (log : OpenLog) : List Log.Write → Nat
  | [] => 0
  | w :: rest => log.appends w + (log.after w).appended rest

theorem after_lastId (log : OpenLog) (db : Database) (w : Log.Write) (hheld : log.held = .ok db)
    (h : db.isComplete = true) (hwritable : log.readOnly = false) :
    (db.log.after w).lastId = db.log.lastId + log.appends w := by
  rw [appends.eq_def, call_write log db w hheld h hwritable, Log.after]
  cases hwrite : db.log.write w with
  | error fault => cases w <;> rfl
  | ok result =>
    change result.2.lastId = _
    rcases Log.write_cases db.log result.2 w result.1 hwrite with
      ⟨path, rfl, -, heq⟩ | ⟨c, rfl, -, -, heq⟩ | ⟨before, rfl, -, heq⟩ | ⟨rfl, -, heq⟩
    · rw [heq]
      exact Log.register_lastId db.log path
    · rw [heq]
      rfl
    · rw [heq]
      rfl
    · rw [heq]
      rfl

/-- The last identifier moves by the number of connections appended. -/
theorem afterAll_lastId (log : OpenLog) (db : Database) (writes : List Log.Write)
    (hheld : log.held = .ok db) (h : db.isComplete = true) (hwritable : log.readOnly = false) :
    (db.log.afterAll writes).lastId = db.log.lastId + log.appended writes := by
  induction writes generalizing log db with
  | nil => rfl
  | cons w rest ih =>
    obtain ⟨hheld', hwritable'⟩ := after_held log db w hheld h hwritable
    have hfirst := after_lastId log db w hheld h hwritable
    have hrest := ih (log.after w) { db with log := db.log.after w } hheld' h hwritable'
    change ((db.log.after w).afterAll rest).lastId = _
    rw [hrest, appended]
    simp only
    omega

/-- The plan between the bounds that are answered at two moments of a run is a reset
exactly when fewer than two connections are left, and otherwise counts what was lost and
what was appended in between. -/
theorem between_accounted (log : OpenLog) (before more : List Log.Write)
    (hheld : log.held = .ok Database.empty) (hwritable : log.readOnly = false) :
    ∃ old new : Database,
      (log.afterAll before).held = .ok old ∧ (log.afterAll (before ++ more)).held = .ok new ∧
      (log.afterAll before).answer .span = .ok (.span old.log.span) ∧
      (log.afterAll (before ++ more)).answer .span = .ok (.span new.log.span) ∧
      old.log.Accounted new.log (Plan.between old.log.span new.log.span)
        ((log.afterAll before).appended more) := by
  obtain ⟨hfirst, hwritable'⟩ := afterAll_held_run log before hheld hwritable
  obtain ⟨hlater, -⟩ := afterAll_held_run log (before ++ more) hheld hwritable
  have happended := afterAll_lastId (log.afterAll before) _ more hfirst rfl hwritable'
  refine ⟨_, _, hfirst, hlater, answer_span _ _ hfirst rfl, answer_span _ _ hlater rfl, ?_⟩
  change (Log.run before).Accounted (Log.run (before ++ more)) _ _
  rw [Log.run_append]
  exact Log.afterAll_accounted (Log.run before) more _ (Log.run_unbroken before) happended

/-- A log of three connections loses one and gets another. -/
theorem between_accounted_moved :
    let c := Seed.connection [1] 0 false 0
    let log : OpenLog := ⟨none, false, .beside, .ok Database.empty⟩
    let before : List Log.Write := [.register "/bin/a", .append c, .append c, .append c]
    let more : List Log.Write := [.prune 2, .append c]
    (log.afterAll before).answer .span = .ok (.span ⟨1, 3⟩) ∧
      (log.afterAll (before ++ more)).answer .span = .ok (.span ⟨2, 4⟩) ∧
      (log.afterAll before).appended more = 1 ∧
      ∃ old new : Database,
        (log.afterAll before).held = .ok old ∧ (log.afterAll (before ++ more)).held = .ok new ∧
        (log.afterAll before).answer .span = .ok (.span old.log.span) ∧
        (log.afterAll (before ++ more)).answer .span = .ok (.span new.log.span) ∧
        old.log.Accounted new.log (Plan.between old.log.span new.log.span)
          ((log.afterAll before).appended more) := by
  intro c log before more
  exact ⟨rfl, rfl, rfl, between_accounted log before more rfl rfl⟩

end OpenLog

end ConnectionLog
