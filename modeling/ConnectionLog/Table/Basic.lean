import ConnectionLog.Cell.Column
import ConnectionLog.Window.Basic

/-!
The table of connections as a viewer has it: a window on the log, the names of
hosts, the choice whether to show them, and the announcements not taken yet.
-/
namespace ConnectionLog

structure Table where
  window : Window
  hosts : HostNames
  resolve : Bool
  pending : List Event

structure UpdateError (ε : Type) where
  cause : ε

def UpdateError.message {ε : Type} (_ : UpdateError ε) : String :=
  "failed to read connection id range"

namespace Table

variable {ε : Type}

def new (hosts : HostNames) (resolve : Bool) : Table := ⟨Window.initial, hosts, resolve, []⟩

def span (t : Table) : Span := t.window.span

def rows (t : Table) : Nat := t.window.rows

def view (t : Table) : View := ⟨t.resolve, t.hosts⟩

/-- Takes over the bounds of the log. A log that has become empty takes the names
of hosts with it. -/
def observe (t : Table) (new : Span) : Table :=
  if new = t.span then t
  else
    { t with
      window := t.window.observe new
      hosts := if new.isEmpty then HostNames.empty else t.hosts
      pending := t.pending ++ t.window.announcements new }

/-- Reads the bounds of the log and takes them over. If they cannot be read the
table stays as it is. -/
def update (t : Table) (source : Source ε) : Except (UpdateError ε) (Plan × Table) :=
  match source.span with
  | .ok new => .ok (Plan.between t.span new, t.observe new)
  | .error cause => .error ⟨cause⟩

def refresh (t : Table) : Table :=
  { t with
    window := t.window.invalidate
    pending := if t.rows = 0 then t.pending else t.pending ++ [.changed 0 (t.rows - 1)] }

def setResolve (t : Table) (resolve : Bool) : Table :=
  if t.resolve = resolve then t else { t with resolve }.refresh

def setHost (t : Table) (address name : String) : Table :=
  { t with hosts := t.hosts.insert address name }

def takeEvents (t : Table) : List Event × Table := (t.pending, { t with pending := [] })

def read (t : Table) (source : Source ε) (row : Nat) : Reading ε Row :=
  t.window.read source row

def readCell (t : Table) (source : Source ε) (row : Nat) (column : Column) (role : Role) :
    Reading ε (Option String) :=
  let reading := t.read source row
  { reading with
    answer := reading.answer.map fun value =>
      value.bind fun connection => connection.cellText? t.view column role }

def after {α : Type} (t : Table) (reading : Reading ε α) : Table :=
  { t with window := reading.window }

end Table

end ConnectionLog
