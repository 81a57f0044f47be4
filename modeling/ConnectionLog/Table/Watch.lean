import ConnectionLog.Table.Line

/-!
Following a log. Every look at it is told as lines: how the window moved, and
the rows that came in. All of them are told as the table is after the whole move.
-/
namespace ConnectionLog

inductive WatchLine where
  | window (span : Span) (rows : Nat)
  | reset (span : Span) (rows : Nat)
  | removed (count start : Nat)
  | inserted (count start : Nat)
  | changed (first last : Nat)
  | row (line : RowLine)
deriving DecidableEq

namespace WatchLine

def countText (span : Span) (rows : Nat) : String :=
  span.text ++ " (" ++ Numeral.natText rows ++ " rows)"

def text : WatchLine → String
  | window span rows => "window " ++ countText span rows
  | reset span rows => "reset " ++ countText span rows
  | removed count start =>
    "removed " ++ Numeral.natText count ++ " rows at " ++ Numeral.natText start
  | inserted count start =>
    "inserted " ++ Numeral.natText count ++ " rows at " ++ Numeral.natText start
  | changed first last =>
    "changed rows " ++ Numeral.natText first ++ "..=" ++ Numeral.natText last
  | row line => line.text

end WatchLine

inductive WatchError (ε : Type) where
  | bounds (cause : UpdateError ε)
  | line (cause : LineError ε)

def WatchError.message {ε : Type} : WatchError ε → String
  | .bounds _ => "failed to read connection log bounds"
  | .line cause => cause.message

/-- What was told, and the table afterwards or the reason why it ended. -/
structure Told (ε : Type) where
  lines : List WatchLine
  outcome : Except (WatchError ε) Table

namespace Told

variable {ε : Type}

def andThen (told : Told ε) (next : Table → Told ε) : Told ε :=
  match told.outcome with
  | .error _ => told
  | .ok t =>
    let later := next t
    ⟨told.lines ++ later.lines, later.outcome⟩

end Told

namespace Table

variable {ε : Type}

def windowLine (t : Table) : WatchLine := .window t.span t.rows

/-- Tells of rows, but of none that the table does not have. -/
def tellRows (t : Table) (source : Source ε) (start count : Nat) : Told ε :=
  let (lines, failure, t) := t.readLines source start (t.pageSize start (some count))
  ⟨lines.map .row,
    match failure with
    | some e => .error (.line e)
    | none => .ok t⟩

def tell (t : Table) (source : Source ε) : Event → Told ε
  | .reset => ⟨[.reset t.span t.rows], .ok t⟩
  | .removed start count => ⟨[.removed count start], .ok t⟩
  | .inserted start count =>
    (Told.mk [.inserted count start] (.ok t)).andThen fun t => t.tellRows source start count
  | .changed first last => ⟨[.changed first last], .ok t⟩

def tellAll (t : Table) (source : Source ε) : List Event → Told ε
  | [] => ⟨[], .ok t⟩
  | e :: rest => (t.tell source e).andThen fun t => t.tellAll source rest

/-- Looks at the log and tells all that has not been told yet. -/
def poll (t : Table) (source : Source ε) : Told ε :=
  match t.update source with
  | .error e => ⟨[], .error (.bounds e)⟩
  | .ok (_, t) => t.takeEvents.2.tellAll source t.takeEvents.1

def pollAll (t : Table) : List (Source ε) → Told ε
  | [] => ⟨[], .ok t⟩
  | source :: rest => (t.poll source).andThen fun t => t.pollAll rest

def pollTimes (t : Table) (source : Source ε) : Nat → Told ε
  | 0 => ⟨[], .ok t⟩
  | n + 1 => (t.poll source).andThen fun t => t.pollTimes source n

theorem pollTimes_eq (t : Table) (source : Source ε) (n : Nat) :
    t.pollTimes source n = t.pollAll (List.replicate n source) := by
  induction n generalizing t with
  | zero => rfl
  | succ n ih =>
    simp only [pollTimes, List.replicate_succ, pollAll, ih]

def load (hosts : HostNames) (resolve : Bool) (source : Source ε) :
    Except (UpdateError ε) Table :=
  ((Table.new hosts resolve).update source).map (·.2)

def follow (t : Table) (look : Table → Told ε) : Told ε :=
  (Told.mk [t.windowLine] (.ok t)).andThen look

def watch (hosts : HostNames) (resolve : Bool) (first : Source ε) (polls : List (Source ε)) :
    Told ε :=
  match load hosts resolve first with
  | .error e => ⟨[], .error (.bounds e)⟩
  | .ok t => t.follow fun t => t.pollAll polls

end Table

end ConnectionLog
