import ConnectionLog.Files.Tree

/-!
The files beside a database. A journal keeps what a change replaces; a database
that is changed ahead has a file of changes that are not in it yet, and one that
its users share. Whoever uses a database first looks at what others have left.
-/
namespace ConnectionLog

namespace Place

def journal (place : Place) : Place := place.beside "-journal"

def changes (place : Place) : Place := place.beside "-wal"

def shared (place : Place) : Place := place.beside "-shm"

def isNameable (place : Place) : Bool := place.all fits

end Place

namespace FileTree

def filled? (t : FileTree) (place : Place) : Option FileNode :=
  match t.node? place with
  | some (.file contents) => if contents.isEmpty then none else some (.file contents)
  | node => node

/-- The first bytes of a file that users share. They are no text. -/
def sharedStart : List UInt8 := [0x18, 0xE2, 0x2D, 0x00]

/-- Whether the users of a database cannot share a file, because a directory is in
its place. Then nobody may write. -/
def cannotShare (t : FileTree) (place : Place) : Bool := t.isDirectory place.shared

/-- The files that are left beside a database that is changed ahead. A writer clears
them away, if it may write. -/
def leave (t : FileTree) (place : Place) (writes : Bool) : FileTree :=
  if writes && !t.cannotShare place then (t.removeFile place.changes).removeFile place.shared
  else
    let t :=
      if (t.node? place.changes).isSome then t
      else t.put place.changes (.file (.bytes []))
    if t.cannotShare place then t else t.put place.shared (.file (.bytes sharedStart))

/-- A journal that was left beside a database has to be cleared away before it is
used, which only a writer can do, unless it was given up. Beside a blank file it
means nothing. -/
def settleJournal (place : Place) (isBlank writes : Bool) : FileWork DatabaseFault Unit := do
  match (← get).filled? place.journal with
  | none => return
  | some node =>
    if isBlank then
      if writes then modify (·.removeFile place.journal)
    else
      match node with
      | .directory => throw .inputOutput
      | .file contents =>
        if contents.startsWithZero then return
        else if writes then modify (·.removeFile place.journal)
        else throw .readOnly

/-- Changes that were left beside a database are opened with it, which takes someone
who shares. Beside a blank file they are cleared away. -/
def settleChanges (place : Place) (isBlank writes shares : Bool) :
    FileWork DatabaseFault Unit := do
  match (← get).filled? place.changes with
  | none => return
  | some .directory => throw (if isBlank then .inputOutput else .cannotOpen none)
  | some (.file _) =>
    if isBlank then modify (·.removeFile place.changes)
    else if shares then modify (·.leave place writes)
    else throw (.cannotOpen none)

def meet (place : Place) (contents : Contents) (writes shares : Bool) :
    FileWork DatabaseFault Database := do
  settleJournal place contents.isBlank writes
  settleChanges place contents.isBlank writes shares
  match contents.found with
  | .error fault => throw fault
  | .ok db =>
    if contents.isAhead then
      unless shares do throw (.cannotOpen none)
      modify (·.leave place writes)
    return db

end FileTree

end ConnectionLog
