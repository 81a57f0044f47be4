import ConnectionLog.Plan
import ConnectionLog.Window.Cache
import ConnectionLog.Window.Source

/-!
A window on a log: the table of its identifiers as last observed, where rows are
read one at a time through a cache. Every edit that changes the span empties the
cache before it is announced, because rows stand for other identifiers then.
-/
namespace ConnectionLog

/-- How the rows known before map onto the table now. -/
inductive Event where
  | reset
  | removed (start count : Nat)
  | inserted (start count : Nat)
  /-- The content of rows changed and their place did not. -/
  | changed (first last : Nat)
deriving DecidableEq

def Edit.event? : Edit → Option Event
  | .keep => none
  | .reset _ => some .reset
  | .trim _ removed => some (.removed 0 removed)
  | .grow _ row added => some (.inserted row added)

inductive ReadError (ε : Type) where
  | outOfRange (row rows : Nat)
  | fetchFailed (id : Int) (cause : ε)

def ReadError.message {ε : Type} : ReadError ε → String
  | .outOfRange row rows =>
    "row " ++ Numeral.natText row ++ " out of range (row count " ++ Numeral.natText rows ++ ")"
  | .fetchFailed id _ => "failed to fetch connection " ++ Numeral.intText id

structure Window where
  span : Span
  cache : RowCache
deriving DecidableEq

structure Reading (ε α : Type) where
  answer : Except (ReadError ε) α
  fetched : Option Int
  window : Window

namespace Window

variable {ε : Type}

def initial : Window := ⟨Span.empty, RowCache.empty⟩

def rows (w : Window) : Nat := w.span.rows

def invalidate (w : Window) : Window := { w with cache := RowCache.empty }

def apply (w : Window) (e : Edit) : Window := ⟨w.span.apply e, RowCache.empty⟩

/-- Moves the window to a new span by the edits of the plan that leads to it. -/
def observe (w : Window) (new : Span) : Window :=
  (Plan.between w.span new).edits.foldl apply w

def announcements (w : Window) (new : Span) : List Event :=
  (Plan.between w.span new).edits.filterMap Edit.event?

def identify (w : Window) (row : Nat) : Except (ReadError ε) Int :=
  match w.span.id? row with
  | some id => .ok id
  | none => .error (.outOfRange row w.rows)

def load (source : Source ε) (id : Int) : Except (ReadError ε) Row :=
  match source.fetch id with
  | .ok record => .ok (record.map Record.decode)
  | .error cause => .error (.fetchFailed id cause)

/-- A row that is not cached is fetched and takes the place of the cached one;
after a failed fetch the cache is as before. -/
def read (w : Window) (source : Source ε) (row : Nat) : Reading ε Row :=
  match w.identify row with
  | .error e => ⟨.error e, none, w⟩
  | .ok id =>
    match w.cache.find? row id with
    | some value => ⟨.ok value, none, w⟩
    | none =>
      match load source id with
      | .ok value => ⟨.ok value, some id, { w with cache := w.cache.store row id value }⟩
      | .error e => ⟨.error e, some id, w⟩

end Window

end ConnectionLog
