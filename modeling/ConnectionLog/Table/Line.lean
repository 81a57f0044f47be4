import ConnectionLog.Table.Basic

/-!
Rows of the table as lines of text. A line is put together from many reads of
cells, between which the log may change; what keeps it whole is the cache, which
answers all reads of a row but the first.
-/
namespace ConnectionLog

structure RowLine where
  id : Int
  cells : List String
deriving DecidableEq

namespace RowLine

def text (line : RowLine) : String :=
  String.intercalate "\t" (Numeral.intText line.id :: line.cells)

def headingText : String :=
  String.intercalate "\t" ("Id" :: Column.all.map (·.title))

end RowLine

/-- A line in the making: the table, the identifiers fetched for it and the
number of reads made. -/
structure Progress where
  table : Table
  fetched : List Int
  reads : Nat

namespace Progress

variable {ε : Type}

def start (t : Table) : Progress := ⟨t, [], 0⟩

/-- Reads a cell from the log as it is by now: `log n` is what it is like when
`n` reads have been made. -/
def readCell (p : Progress) (log : Nat → Source ε) (row : Nat) (column : Column) (role : Role) :
    Except (ReadError ε) (Option String) × Progress :=
  let reading := p.table.readCell (log p.reads) row column role
  (reading.answer,
    ⟨p.table.after reading, p.fetched ++ reading.fetched.toList, p.reads + 1⟩)

def showCell (p : Progress) (log : Nat → Source ε) (row : Nat) (column : Column) :
    Except (ReadError ε) String × Progress :=
  match p.readCell log row column .display with
  | (.error e, p) => (.error e, p)
  | (.ok (some text), p) => (.ok text, p)
  | (.ok none, p) =>
    match p.readCell log row column .hint with
    | (.error e, p) => (.error e, p)
    | (.ok text, p) => (.ok (text.getD ""), p)

def showCells (p : Progress) (log : Nat → Source ε) (row : Nat) :
    List Column → Except (ReadError ε) (List String) × Progress
  | [] => (.ok [], p)
  | column :: rest =>
    match p.showCell log row column with
    | (.error e, p) => (.error e, p)
    | (.ok text, p) =>
      match p.showCells log row rest with
      | (.error e, p) => (.error e, p)
      | (.ok texts, p) => (.ok (text :: texts), p)

end Progress

inductive LineError (ε : Type) where
  | row (cause : ReadError ε)
  | cell (id : Int) (cause : ReadError ε)

def LineError.message {ε : Type} : LineError ε → String
  | .row cause => cause.message
  | .cell id _ => "failed to render connection " ++ Numeral.intText id

namespace Table

variable {ε : Type}

def readLine (t : Table) (log : Nat → Source ε) (row : Nat) :
    Except (LineError ε) RowLine × Progress :=
  match t.window.identify row with
  | .error e => (.error (.row e), Progress.start t)
  | .ok id =>
    match (Progress.start t).showCells log row Column.all with
    | (.error e, p) => (.error (.cell id e), p)
    | (.ok cells, p) => (.ok ⟨id, cells⟩, p)

def readLines (t : Table) (source : Source ε) (start : Nat) :
    Nat → List RowLine × Option (LineError ε) × Table
  | 0 => ([], none, t)
  | count + 1 =>
    match t.readLine (fun _ => source) start with
    | (.error e, p) => ([], some e, p.table)
    | (.ok line, p) =>
      let (lines, failure, t) := p.table.readLines source (start + 1) count
      (line :: lines, failure, t)

def pageSize (t : Table) (offset : Nat) (limit : Option Nat) : Nat :=
  let stop :=
    match limit with
    | some limit => min (min (offset + limit) maxCount) t.rows
    | none => t.rows
  stop - offset

end Table

end ConnectionLog
