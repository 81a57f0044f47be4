import ConnectionLog.Files.Beside
import ConnectionLog.Files.Locator

/-!
Opening a log, for writing or for reading only, and putting it back. Opening for
writing makes what is missing; opening for reading only takes any file, and it is
the first use of it that fails if it holds no log.
-/
namespace ConnectionLog

structure OpenLog where
  place : Option Place
  readOnly : Bool
  sharing : Sharing
  /-- The database that the log is in, or what is wrong with it. -/
  held : Except DatabaseFault Database

namespace FileTree

/-- Whether a name in a directory can be looked for. A directory that is not there
yet holds any name. -/
def mayHold (t : FileTree) (place : Place) (name : String) : Bool :=
  match t.node? place with
  | some .directory => Place.fits name
  | some (.file _) => false
  | none => true

def pathLimit : Nat := 512

/-- The place of a database by the parts of its name. Going up leads back to where
the part before started from, whatever is there. -/
def resolve? (t : FileTree) : Place → List (List Char) → Option Place
  | place, [] =>
    if 2 ≤ place.size ∧ place.journal.size ≤ pathLimit then some place else none
  | place, part :: rest =>
    let next := place.step part
    if next.length ≤ place.length then t.resolve? next rest
    else if next.size < pathLimit ∧ t.mayHold place (String.ofList part) then t.resolve? next rest
    else none

def locate (granted : Access) (path : String) :
    FileWork DatabaseFault (Locator × Option Place) := do
  if path.toList.contains '\x00' then
    throw (.zeroInPath (Path.textSize (path.toList.takeWhile (· ≠ '\x00'))))
  match Locator.ofPath granted path with
  | .error fault => throw (.locator fault)
  | .ok l =>
    if !l.kept then return (l, none)
    let t ← get
    match t.resolve? (t.start l.name) (Pieces.splitOn '/' l.name.toList) with
    | none => throw (.cannotOpen (some path))
    | some place => return (l, some place)

def openFile (path : String) (place : Place) (access : Access) :
    FileWork DatabaseFault Contents := do
  let t ← get
  match t.node? place with
  | some (.file contents) => return contents
  | some .directory =>
    throw (if access = .reading then .inputOutput else .cannotOpen (some path))
  | none =>
    unless access = .creating && t.isDirectory place.dropLast do
      throw (.cannotOpen (some path))
    set (t.put place (.file (.bytes [])))
    return .bytes []

end FileTree

namespace OpenLog

open FileTree

def call (log : OpenLog) (asked : Call) : Except DatabaseFault (Answer × OpenLog) := do
  let db ← log.held
  let (answer, db) ← db.call log.readOnly asked
  return (answer, { log with held := .ok db })

def source (log : OpenLog) : Source DatabaseFault :=
  match log.held with
  | .ok db => db.source
  | .error fault => ⟨.error fault, fun _ => .error fault⟩

/-- Opens a log that has to be in order, because nothing can be made there. -/
def asFound (place : Place) (sharing : Sharing) (contents : Contents) (db : Database) :
    FileWork DatabaseFault OpenLog := do
  unless db.isComplete && (contents.isAhead || sharing ≠ .beside) do throw .readOnly
  return ⟨some place, true, sharing, .ok db⟩

/-- Makes a file one of a database, unless it is, with a journal that is removed
afterwards. A database that is shared is changed ahead. -/
def prepare (place : Place) (sharing : Sharing) (contents : Contents) (db : Database) :
    FileWork DatabaseFault Unit := do
  let shares := sharing = .beside
  let isReady := if shares then contents.isAhead else db.isComplete
  unless isReady do
    if !place.journal.isNameable || (← get).isDirectory place.journal then
      throw (.cannotOpen none)
    modify fun t => (t.removeFile place.journal).put place (.file (.database db shares))
  if shares then modify (·.leave place true)

/-- Makes what is missing in a file for a log to be written. Who cannot share may not
write. -/
def setUp (place : Place) (sharing : Sharing) (contents : Contents) (db : Database) :
    FileWork DatabaseFault OpenLog := do
  prepare place sharing contents db
  let isShut := sharing = .beside && (← get).cannotShare place
  if isShut && !db.isComplete then throw .readOnly
  modify (·.put place (.file (.database db.completed (sharing = .beside))))
  return ⟨some place, isShut, sharing, .ok db.completed⟩

def openFound (l : Locator) (place : Place) (contents : Contents) :
    FileWork DatabaseFault OpenLog := do
  if l.sharing = .unchanging then
    match contents.found with
    | .error fault => throw fault
    | .ok db => asFound place l.sharing contents db
  else
    let writes := l.access ≠ .reading
    let db ← meet place contents writes (l.sharing = .beside)
    if writes then setUp place l.sharing contents db
    else asFound place l.sharing contents db

def openToWrite (path : String) : FileWork DatabaseFault OpenLog := do
  match ← locate .creating path with
  | (l, some place) => openFound l place (← openFile path place l.access)
  | (l, none) =>
    if l.access = .reading then throw .readOnly
    return ⟨none, false, l.sharing, .ok Database.empty⟩

def forWriting (path : String) : FileWork LogFault OpenLog := do
  EStateM.adaptExcept .file (makeDirectories path)
  EStateM.adaptExcept .database (openToWrite path)

def openToRead (path : String) : FileWork DatabaseFault OpenLog := do
  match ← locate .reading path with
  | (l, some place) =>
    return ⟨some place, true, l.sharing, (← openFile path place l.access).found⟩
  | (l, none) => return ⟨none, true, l.sharing, .ok Database.bare⟩

def forReading (path : String) : FileWork LogFault OpenLog :=
  EStateM.adaptExcept .database (openToRead path)

/-- The first use of a log that was opened for reading. It settles what the log
holds from then on. -/
def firstUse (log : OpenLog) (t : FileTree) : OpenLog × FileTree :=
  match log.place, log.sharing with
  | none, _ | _, .unchanging => (log, t)
  | some place, sharing =>
    match t.node? place with
    | some (.file contents) =>
      match meet place contents false (sharing = .beside) t with
      | .ok db t => ({ log with held := .ok db }, t)
      | .error fault t => ({ log with held := .error fault }, t)
    | _ => (log, t)

def close (log : OpenLog) (t : FileTree) : FileTree :=
  match log.place, log.held with
  | some place, .ok db =>
    match log.readOnly, t.node? place with
    | false, some (.file (.database _ ahead)) => t.put place (.file (.database db ahead))
    | _, _ => t
  | _, _ => t

end OpenLog

end ConnectionLog
