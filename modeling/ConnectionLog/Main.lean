import ConnectionLog.Command.Run
import ConnectionLog.Files.Saved
import Std.Time.DateTime.Timestamp

/-!
The program. It looks at the files a command needs, runs the command on what it
found, and writes back what the command changed. Only a watch looks at its log
more than once.
-/
namespace ConnectionLog.Program

def nodeAt? (place : Place) : IO (Option FileNode) := do
  match ← (IO.FS.realPath place.text).toBaseIO with
  | .error _ => return none
  | .ok found =>
    if ← found.isDir then return some .directory
    return some (.file (.ofSaved (← IO.FS.readBinFile found).toList))

def here : IO FileTree := do
  let path := (← IO.currentDir).toString
  return .atHome ((Path.ofText path).parts.foldl Place.step [])

def lookAt (files : FileTree) (places : List Place) : IO FileTree :=
  places.foldlM (fun files place => do
    match ← nodeAt? place with
    | some node => return files.put place node
    | none => return files) files

def look (files : FileTree) (path : String) : IO FileTree :=
  lookAt files (Place.along (files.start path) (Path.ofText path).parts)

def lookForLog (files : FileTree) (path : String) : IO FileTree := do
  let files ← look files path
  match Locator.ofPath .creating path with
  | .error _ => return files
  | .ok l =>
    let files ← look files l.name
    match FileTree.locate .creating path files with
    | .ok (_, some place) files => lookAt files [place, place.journal, place.changes, place.shared]
    | .ok _ files | .error _ files => return files

/-- A file is replaced as a whole, so that nobody finds half of it. -/
def save (place : Place) : Option FileNode → IO Unit
  | none => IO.FS.removeFile place.text
  | some .directory => IO.FS.createDirAll place.text
  | some (.file contents) => do
    let draft := place.text ++ ".new"
    IO.FS.writeBinFile draft ⟨contents.saved.toArray⟩
    IO.FS.rename draft place.text

def saveChanges (earlier later : FileTree) : IO Unit :=
  (earlier.changes later).forM fun (place, node) => save place node

def now : IO Int := return (← Std.Time.Timestamp.now).toSecondsSinceUnixEpoch.val

def finish (report : Report) : IO UInt32 := do
  IO.print report.text
  (← IO.getStdout).flush
  match report.faultText? with
  | none => return 0
  | some text =>
    IO.eprintln text
    return 1

/-- An open log as it is by now. One that was taken away stays as it was. -/
def sourceOf (log : OpenLog) : IO (Source DatabaseFault) := do
  match log.place with
  | none => return log.source
  | some place =>
    match ← nodeAt? place with
    | some (.file contents) => return OpenLog.source { log with held := contents.found }
    | _ => return log.source

partial def follow (log : OpenLog) (pause : UInt32) (t : Table) (polls : Option Nat) :
    IO UInt32 := do
  if polls = some 0 then return 0
  let told := t.poll (← sourceOf log)
  let code ← finish (Command.reportTold told)
  match told.outcome with
  | .error _ => return code
  | .ok t =>
    let left := polls.map (· - 1)
    unless left = some 0 do IO.sleep pause
    follow log pause t left

def watch (files : FileTree) (s : Settings) (polls : Option Nat) : IO UInt32 := do
  match Command.openForReading s files with
  | .error fault later =>
    saveChanges files later
    finish (.failed fault)
  | .ok log later =>
    saveChanges files later
    match Table.load s.view.hosts s.view.resolve (← sourceOf log) with
    | .error _ => finish (.failed .bounds)
    | .ok t =>
      let _ ← finish (.line t.windowLine.text)
      follow log (UInt32.ofNat (min s.view.pollInterval 4294967295)) t polls

def run (i : Invocation) : IO UInt32 := do
  let files ← look (← here) i.config
  match Command.settings files i with
  | .error fault => finish (.failed fault)
  | .ok s =>
    let files ← lookForLog files s.store.path
    match i.command with
    | .watch polls => watch files s polls
    | _ =>
      let (report, later) := Command.run files (← now) i
      saveChanges files later
      finish report

/-- Answers the arguments and gives the exit code, which is two if they ask for
nothing that there is. -/
def answer (args : List String) : IO UInt32 := do
  match Request.ofArguments? args with
  | none =>
    IO.eprintln helpText
    return 2
  | some .version =>
    IO.println versionText
    return 0
  | some .help =>
    IO.println helpText
    return 0
  | some (.run i) => run i

end ConnectionLog.Program

def main (args : List String) : IO UInt32 := ConnectionLog.Program.answer args
