import ConnectionLog.Files.Contents
import ConnectionLog.Files.Place

/-!
Files and directories, seen from a directory that paths start from. Work on them
keeps what it has done even if it fails.
-/
namespace ConnectionLog

inductive FileNode where
  | directory
  | file (contents : Contents)
deriving DecidableEq

structure FileTree where
  /-- The directory that paths start from. It is always there. -/
  home : Place
  nodes : List (Place × FileNode)

abbrev FileWork (ε α : Type) := EStateM ε FileTree α

namespace FileTree

def atHome (home : Place) : FileTree := ⟨home, []⟩

def node? (t : FileTree) (place : Place) : Option FileNode :=
  if place.isPrefixOf t.home then some .directory else t.nodes.lookup place

def remove (t : FileTree) (place : Place) : FileTree :=
  { t with nodes := t.nodes.filter (·.1 ≠ place) }

def put (t : FileTree) (place : Place) (node : FileNode) : FileTree :=
  { t with nodes := (place, node) :: (t.remove place).nodes }

def isDirectory (t : FileTree) (place : Place) : Bool :=
  match t.node? place with
  | some .directory => true
  | _ => false

def removeFile (t : FileTree) (place : Place) : FileTree :=
  if t.isDirectory place then t else t.remove place

def start (t : FileTree) (path : String) : Place :=
  if (Path.ofText path).rooted then [] else t.home

def walk (t : FileTree) : Place → List (List Char) → Except FileFault Place
  | place, [] => .ok place
  | place, part :: rest =>
    match t.node? place with
    | some .directory =>
      if Place.fits (String.ofList part) then t.walk (place.step part) rest
      else .error .nameTooLong
    | some (.file _) => .error .notADirectory
    | none => .error .notFound

def find (t : FileTree) (path : String) : Except FileFault FileNode :=
  if Path.limit ≤ path.utf8ByteSize then .error .nameTooLong
  else
    match t.walk (t.start path) (Pieces.splitOn '/' path.toList) with
    | .error fault => .error fault
    | .ok place =>
      match t.node? place with
      | some node => .ok node
      | none => .error .notFound

def exists? (t : FileTree) (path : String) : Bool :=
  match t.find path with
  | .ok _ => true
  | .error _ => false

/-- Reads a file of text. A log is no text. -/
def readText (t : FileTree) (path : String) : Except FileFault String :=
  match t.find path with
  | .error fault => .error fault
  | .ok .directory => .error .isADirectory
  | .ok (.file (.database ..)) => .error .malformedText
  | .ok (.file (.bytes bytes)) =>
    match Utf8.decode bytes with
    | .ok text => .ok text
    | .error _ => .error .malformedText

/-- Makes the directories that parts of a path lead through, unless they are
there. A file among them is no directory to go through; but where a directory
would be made, at the last part or behind one that was made, a file is something
that is there already. -/
def makeAlong (made : Bool) : Place → List (List Char) → FileWork FileFault Unit
  | _, [] => return
  | place, part :: rest => do
    unless Place.fits (String.ofList part) do throw .nameTooLong
    let next := place.step part
    match (← get).node? next with
    | some .directory => makeAlong made next rest
    | some (.file _) => throw (if made || rest = [] then .exists else .notADirectory)
    | none =>
      modify (·.put next .directory)
      makeAlong true next rest

def makeDirectories (path : String) : FileWork FileFault Unit := do
  let parts := (Path.ofText path).directory
  if parts.any (·.contains '\x00') then throw .invalidName
  unless Path.directorySize path.toList < Path.limit do throw .nameTooLong
  makeAlong false ((← get).start path) parts

/-- What is new, different or gone in a later state, the new things in the order in
which they came. -/
def changes (earlier later : FileTree) : List (Place × Option FileNode) :=
  (later.nodes.reverse.filter fun (place, node) => earlier.node? place ≠ some node).map
      (fun (place, node) => (place, some node)) ++
    (earlier.nodes.filter fun (place, _) => (later.node? place).isNone).map
      fun (place, _) => (place, none)

end FileTree

end ConnectionLog
