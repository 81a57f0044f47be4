import ConnectionLog.Command.Request
import ConnectionLog.Command.Seed
import ConnectionLog.Settings.File
import ConnectionLog.Table.Watch

/-!
The commands of the program: what each of them prints and does to the files of
the directory it runs in.
-/
namespace ConnectionLog

inductive CommandFault where
  | configuration (file : String)
  | opening (path : String)
  | bounds
  | readOnly
  | registering
  | appending
  | pruning
  | line (cause : LineError DatabaseFault)

def CommandFault.message : CommandFault → String
  | .configuration file => "failed to load configuration from " ++ file
  | .opening path => "failed to open connection log " ++ path
  | .bounds => "failed to read connection log bounds"
  | .readOnly => "connection log is configured read-only"
  | .registering => "failed to register seed applications"
  | .appending => "failed to append connection"
  | .pruning => "failed to prune connection log"
  | .line cause => cause.message

structure Report where
  lines : List String
  fault : Option CommandFault

namespace Report

def failed (fault : CommandFault) : Report := ⟨[], some fault⟩

def line (text : String) : Report := ⟨[text], none⟩

def text (r : Report) : String := String.join (r.lines.map (· ++ "\n"))

/-- The first line of what is said about the fault. -/
def faultText? (r : Report) : Option String :=
  r.fault.map fun fault =>
    String.ofList (("Error: " ++ fault.message).toList.takeWhile (· ≠ '\n'))

end Report

namespace Command

def settings (files : FileTree) (i : Invocation) : Except CommandFault Settings :=
  match Settings.ofFileOrDefault files i.config with
  | .error _ => .error (.configuration i.config)
  | .ok s => .ok (s.withStore i.database)

/-- Opens the log to look at it at once, for reading only if the settings say so. -/
def openForReading (s : Settings) : FileWork CommandFault OpenLog :=
  EStateM.adaptExcept (fun _ => .opening s.store.path) do
    if s.store.readOnly then
      let log ← OpenLog.forReading s.store.path
      modifyGet log.firstUse
    else OpenLog.forWriting s.store.path

def openForWriting (s : Settings) : FileWork CommandFault OpenLog :=
  if s.store.readOnly then throw .readOnly
  else EStateM.adaptExcept (fun _ => .opening s.store.path) (OpenLog.forWriting s.store.path)

def withTable (log : OpenLog) (s : Settings) (resolve : Bool) (report : Table → Report) : Report :=
  match Table.load s.view.hosts resolve log.source with
  | .error _ => .failed .bounds
  | .ok t => report t

def rangeLine (t : Table) : String :=
  String.intercalate " "
    [Numeral.intText t.span.first, Numeral.intText t.span.last, Numeral.natText t.rows]

def reportList (log : OpenLog) (offset : Nat) (limit : Option Nat) (t : Table) : Report :=
  let (lines, failure, _) := t.readLines log.source offset (t.pageSize offset limit)
  ⟨RowLine.headingText :: lines.map (·.text), failure.map .line⟩

def watchFault : WatchError DatabaseFault → CommandFault
  | .bounds _ => .bounds
  | .line cause => .line cause

def reportTold (told : Told DatabaseFault) : Report :=
  ⟨told.lines.map (·.text),
    match told.outcome with
    | .ok _ => none
    | .error e => some (watchFault e)⟩

def reportWatch (log : OpenLog) (polls : Nat) (t : Table) : Report :=
  reportTold (t.follow fun t => t.pollTimes log.source polls)

def reportSeed (log : OpenLog) (now : Int) (count : Nat) (v6 : Bool) : Report × OpenLog :=
  match Seed.register log Seed.apps with
  | (log, .error _) => (.failed .registering, log)
  | (log, .ok appIds) =>
    match Seed.append (Seed.connection appIds now v6) log none (List.range count) with
    | (log, .error _) => (.failed .appending, log)
    | (log, .ok none) => (.line "appended 0 connections", log)
    | (log, .ok (some id)) =>
      (.line ("appended " ++ Numeral.natText count ++ " connections, last id " ++
        Numeral.intText id), log)

def reportPrune (log : OpenLog) (before : Int) : Report × OpenLog :=
  match log.call (.write (.prune before)) with
  | .ok (.outcome (.count count), log) =>
    (.line ("removed " ++ Numeral.natText count ++ " connections"), log)
  | _ => (.failed .pruning, log)

/-- Runs a command on an open log. A watch without an end makes no look here:
each one has to find the log as it is by then. -/
def runOn (log : OpenLog) (s : Settings) (now : Int) : Command → Report × OpenLog
  | .range => (withTable log s false fun t => .line (rangeLine t), log)
  | .list offset limit resolve =>
    (withTable log s (resolve || s.view.resolve) (reportList log offset limit), log)
  | .watch polls => (withTable log s s.view.resolve (reportWatch log (polls.getD 0)), log)
  | .seed count v6 => reportSeed log now count v6
  | .prune before => reportPrune log before

def writes : Command → Bool
  | .seed .. | .prune _ => true
  | _ => false

def run (files : FileTree) (now : Int) (i : Invocation) : Report × FileTree :=
  match settings files i with
  | .error fault => (.failed fault, files)
  | .ok s =>
    match (if i.command.writes then openForWriting s else openForReading s) files with
    | .error fault files => (.failed fault, files)
    | .ok log files =>
      let (report, log) := i.command.runOn log s now
      (report, log.close files)

end Command

inductive ProgramAnswer where
  | misused
  | version (text : String)
  | help
  | report (report : Report)

def versionText : String := "connlog 0.1.0"

def helpText : String :=
  String.intercalate "\n"
    ["Shows and edits a log of connections.",
      "",
      "Usage: connlog [-c FILE] [--db FILE] [--log-level LEVEL] COMMAND",
      "",
      "Commands:",
      "  range                                        bounds and number of rows",
      "  list [--offset N] [-n N] [--resolve]         rows as tab-separated cells",
      "  watch [--iterations N]                       follow the log",
      "  seed --count N [--ipv6]                      append made-up connections",
      "  prune --before ID                            drop the connections before one"]

def runProgram (files : FileTree) (now : Int) (args : List String) : ProgramAnswer × FileTree :=
  match Request.ofArguments? args with
  | none => (.misused, files)
  | some .version => (.version versionText, files)
  | some .help => (.help, files)
  | some (.run i) =>
    let (report, files) := Command.run files now i
    (.report report, files)

end ConnectionLog
