import ConnectionLog.Files.Tree
import ConnectionLog.Settings.Reading

/-!
Settings kept in a file.
-/
namespace ConnectionLog

inductive SettingsFileError where
  | file (fault : FileFault)
  | settings (error : SettingsError)

def FileFault.settingsMessage (fault : FileFault) : String :=
  "failed to read configuration file: " ++ fault.message

namespace Settings

def ofFile (files : FileTree) (path : String) : Except SettingsFileError Settings :=
  match files.readText path with
  | .error fault => .error (.file fault)
  | .ok text => (ofText text).mapError .settings

def ofFileOrDefault (files : FileTree) (path : String) : Except SettingsFileError Settings :=
  if files.exists? path then ofFile files path else .ok default

def withStore (s : Settings) : Option String → Settings
  | some path => { s with store := { s.store with path } }
  | none => s

end Settings

end ConnectionLog
