import ConnectionLog.Cell.HostNames
import ConnectionLog.Limits
import ConnectionLog.Text.Path

/-!
The settings of the program: where the log is, how its table is shown, and how
much is told about the work. Every setting has a default.
-/
namespace ConnectionLog

structure StoreSettings where
  path : String
  readOnly : Bool
deriving DecidableEq

structure ViewSettings where
  resolve : Bool
  /-- Milliseconds between two looks at the log. -/
  pollInterval : Nat
  hosts : HostNames
deriving DecidableEq

structure LoggingSettings where
  level : String
deriving DecidableEq

structure Settings where
  store : StoreSettings
  view : ViewSettings
  logging : LoggingSettings
deriving DecidableEq

inductive SettingsFault where
  | emptyPath
  | zeroInterval
deriving DecidableEq

def SettingsFault.message : SettingsFault → String
  | .emptyPath => "configuration validation failed: store.path must not be empty"
  | .zeroInterval =>
    "configuration validation failed: view.poll_interval_ms must be greater than zero"

inductive SettingsError where
  /-- The text is no document, or a setting in it is of the wrong type. -/
  | malformed
  | invalid (fault : SettingsFault)
deriving DecidableEq

def StoreSettings.default : StoreSettings := ⟨"connlog.db", false⟩

def ViewSettings.default : ViewSettings := ⟨false, 1000, HostNames.empty⟩

def LoggingSettings.default : LoggingSettings := ⟨"warn"⟩

def ViewSettings.pollDuration (s : ViewSettings) : Nat × Nat :=
  (s.pollInterval / 1000, s.pollInterval % 1000 * 1000000)

def StoreSettings.agrees (a b : StoreSettings) : Bool :=
  Path.ofText a.path = Path.ofText b.path && a.readOnly = b.readOnly

namespace Settings

def default : Settings := ⟨.default, .default, .default⟩

/-- The first thing wrong with the settings, if any is. -/
def fault? (s : Settings) : Option SettingsFault :=
  if s.store.path = "" then some .emptyPath
  else if s.view.pollInterval = 0 then some .zeroInterval
  else none

def agrees (a b : Settings) : Bool :=
  a.store.agrees b.store && a.view = b.view && a.logging = b.logging

def validated (s : Settings) : Except SettingsError Settings :=
  match s.fault? with
  | some fault => .error (.invalid fault)
  | none => .ok s

end Settings

end ConnectionLog
