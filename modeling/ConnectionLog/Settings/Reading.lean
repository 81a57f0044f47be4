import ConnectionLog.Settings.Basic
import ConnectionLog.Toml.Reader

/-!
Settings read from a document: the document laid over the defaults. What the
document does not mention keeps its default, and what the settings do not know is
passed over.
-/
namespace ConnectionLog

open Toml

/-- The fields of a section, by their names or in their order. -/
inductive Fields where
  | named (entries : Entries)
  | listed (items : List Value)

namespace Fields

/-- The key under which a date or time stands where a table is expected. -/
def dateTimeKey : String := "$__toml_private_datetime"

def ofValue? : Value → Option Fields
  | .table _ entries => some (named entries)
  | .array items => some (listed items)
  | .tables items => some (listed (items.map (.table .header)))
  | .dateTime text => some (named [(dateTimeKey, .string text)])
  | _ => none

def get? (fields : Fields) (name : String) (position : Nat) : Option Value :=
  match fields with
  | named entries => entries.lookup name
  | listed items => items[position]?

end Fields

/-- The value read from a setting, or the default without one. A setting of the
wrong type has none. -/
def settingOr {α : Type} (default : α) (read : Value → Option α) : Option Value → Option α
  | some value => read value
  | none => some default

namespace Toml.Value

def asString? : Value → Option String
  | .string value => some value
  | _ => none

def asBoolean? : Value → Option Bool
  | .boolean value => some value
  | _ => none

def asNat? : Value → Option Nat
  | .integer value => if 0 ≤ value then some value.toNat else none
  | _ => none

def asHosts? (value : Value) : Option HostNames :=
  match Fields.ofValue? value with
  | some (.named entries) =>
    (entries.mapM fun e => (asString? e.2).map (e.1, ·)).map HostNames.ofList
  | _ => none

def asStore? (value : Value) : Option StoreSettings := do
  let fields ← Fields.ofValue? value
  let path ← settingOr StoreSettings.default.path asString? (fields.get? "path" 0)
  let readOnly ← settingOr StoreSettings.default.readOnly asBoolean? (fields.get? "read_only" 1)
  return { path, readOnly }

def asView? (value : Value) : Option ViewSettings := do
  let fields ← Fields.ofValue? value
  let resolve ←
    settingOr ViewSettings.default.resolve asBoolean? (fields.get? "resolve_address" 0)
  let pollInterval ←
    settingOr ViewSettings.default.pollInterval asNat? (fields.get? "poll_interval_ms" 1)
  let hosts ← settingOr ViewSettings.default.hosts asHosts? (fields.get? "host_names" 2)
  return { resolve, pollInterval, hosts }

def asLogging? (value : Value) : Option LoggingSettings := do
  let fields ← Fields.ofValue? value
  let level ← settingOr LoggingSettings.default.level asString? (fields.get? "level" 0)
  return { level }

end Toml.Value

namespace Settings

def ofEntries? (entries : Entries) : Option Settings := do
  let store ← settingOr .default Value.asStore? (entries.lookup "store")
  let view ← settingOr .default Value.asView? (entries.lookup "view")
  let logging ← settingOr .default Value.asLogging? (entries.lookup "log")
  return { store, view, logging }

def ofDocument (entries : Entries) : Except SettingsError Settings :=
  match ofEntries? entries with
  | some settings => settings.validated
  | none => .error .malformed

def ofText (text : String) : Except SettingsError Settings :=
  match parse? text with
  | some entries => ofDocument entries
  | none => .error .malformed

end Settings

end ConnectionLog
