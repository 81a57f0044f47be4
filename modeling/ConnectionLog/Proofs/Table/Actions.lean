import ConnectionLog.Proofs.Window.Memory
import ConnectionLog.Table.Basic

/-!
What a viewer does with a table, one action after the other, each at a log as it
is by then. To the window below it every action is a few steps of its own.
-/
namespace ConnectionLog.Table

variable {ε : Type}

inductive Action where
  | update
  | refresh
  | setResolve (resolve : Bool)
  | read (row : Nat)
  | readCell (row : Nat) (column : Column) (role : Role)
  | takeEvents

/-- The table after an action. An update that fails leaves it as it is. -/
def act (t : Table) (source : Source ε) : Action → Table
  | .update =>
    match t.update source with
    | .ok (_, t) => t
    | .error _ => t
  | .refresh => t.refresh
  | .setResolve resolve => t.setResolve resolve
  | .read row => t.after (t.read source row)
  | .readCell row column role => t.after (t.readCell source row column role)
  | .takeEvents => t.takeEvents.2

def moves (t : Table) (source : Source ε) : Action → List (Window.Step ε)
  | .update =>
    match source.span with
    | .ok new => [.observe new]
    | .error _ => []
  | .refresh => [.invalidate]
  | .setResolve resolve => if t.resolve = resolve then [] else [.invalidate]
  | .read row => [.read source row]
  | .readCell row _ _ => [.read source row]
  | .takeEvents => []

theorem observe_window (t : Table) (new : Span) :
    (t.observe new).window = t.window.observe new := by
  unfold observe
  split
  · rename_i h
    subst h
    exact (Window.observe_self t.window).symm
  · rfl

/-- For the window an action is nothing but its moves. -/
theorem act_window (t : Table) (source : Source ε) (a : Action) :
    (t.act source a).window = t.window.run (t.moves source a) := by
  cases a with
  | update =>
    rw [act, update, moves]
    cases source.span with
    | ok new => exact observe_window t new
    | error cause => rfl
  | refresh => rfl
  | setResolve resolve =>
    rw [act, setResolve, moves]
    split <;> rfl
  | read row => rfl
  | readCell row column role => rfl
  | takeEvents => rfl

/-- Only an update that learns new bounds moves the window. -/
theorem act_span (t : Table) (source : Source ε) (a : Action) :
    (t.act source a).span =
      match a, source.span with
      | .update, .ok new => new
      | _, _ => t.span := by
  rw [span, act_window]
  cases a with
  | update =>
    rw [moves]
    cases source.span with
    | ok new => exact Window.observe_span t.window new
    | error cause => rfl
  | setResolve resolve =>
    rw [moves]
    split <;> rfl
  | read row => exact Window.read_span t.window source row
  | readCell row column role => exact Window.read_span t.window source row
  | refresh => rfl
  | takeEvents => rfl

/-- An action reads from the log that it finds. -/
theorem eq_of_mem_moves (t : Table) (source found : Source ε) (a : Action) (row : Nat)
    (h : .read found row ∈ t.moves source a) : found = source := by
  cases a with
  | update =>
    rw [moves] at h
    cases hspan : source.span with
    | ok new =>
      rw [hspan] at h
      exact nomatch List.mem_singleton.mp h
    | error cause =>
      rw [hspan] at h
      exact nomatch h
  | refresh => exact nomatch List.mem_singleton.mp h
  | setResolve resolve =>
    rw [moves] at h
    split at h
    · exact nomatch h
    · exact nomatch List.mem_singleton.mp h
  | read row' => exact (Window.Step.read.inj (List.mem_singleton.mp h)).1
  | readCell row' column role => exact (Window.Step.read.inj (List.mem_singleton.mp h)).1
  | takeEvents => exact nomatch h

/-- Every step of an action finds the log as the action does. -/
theorem moves_steady (t : Table) (source : Source ε) (a : Action) :
    ∀ s ∈ t.moves source a, s.Steady source.fetch := by
  intro s hs
  cases s with
  | observe new => trivial
  | invalidate => trivial
  | read found row => rw [Window.Step.Steady, eq_of_mem_moves t source found a row hs]

end ConnectionLog.Table
