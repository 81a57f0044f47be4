import ConnectionLog.Settings.Basic
import ConnectionLog.Toml.Writer

/-!
Settings written as a document, every one of them in a fixed order.
-/
namespace ConnectionLog.Settings

open Toml

def headingLine (name : String) : List Char := '[' :: name.toList ++ [']', '\n']

def assignmentLine (key value : List Char) : List Char := key ++ " = ".toList ++ value ++ ['\n']

def storeChars (s : StoreSettings) : List Char :=
  headingLine "store" ++
    assignmentLine "path".toList (writeString s.path) ++
    assignmentLine "read_only".toList (writeBoolean s.readOnly)

def hostChars (hosts : HostNames) : List Char :=
  hosts.entries.flatMap fun e => assignmentLine (writeKey e.1) (writeString e.2)

def viewChars (s : ViewSettings) : List Char :=
  headingLine "view" ++
    assignmentLine "resolve_address".toList (writeBoolean s.resolve) ++
    assignmentLine "poll_interval_ms".toList (Numeral.decimal s.pollInterval) ++
    '\n' :: headingLine "view.host_names" ++
    hostChars s.hosts

def loggingChars (s : LoggingSettings) : List Char :=
  headingLine "log" ++ assignmentLine "level".toList (writeString s.level)

def chars (s : Settings) : List Char :=
  storeChars s.store ++ '\n' :: viewChars s.view ++ '\n' :: loggingChars s.logging

/-- The settings as a document. An interval that is no number of 64 bits with a
sign cannot be written. -/
def text? (s : Settings) : Option String :=
  if (s.view.pollInterval : Int) ≤ maxId then some (String.ofList s.chars) else none

end ConnectionLog.Settings
