import ConnectionLog.Log.Fault
import ConnectionLog.Record.Connection

/-!
Connections as the columns of a log hold them. `NewConnection.entry` writes a
connection into columns and `Entry.read` reads a record from them. Addresses of
one family leave the columns of the other empty, and it is the first of the
version four columns that tells the families apart.
-/
namespace ConnectionLog

structure Entry where
  id : Int
  appId : Datum
  time : Datum
  pid : Datum
  reason : Datum
  blocked : Datum
  inherited : Datum
  inbound : Datum
  protocol : Datum
  nearPort : Datum
  farPort : Datum
  near4 : Datum
  far4 : Datum
  near6 : Datum
  far6 : Datum
deriving DecidableEq

structure NewConnection where
  appId : Int
  time : Int
  pid : UInt32
  reason : Reason
  blocked : Bool
  inherited : Bool
  inbound : Bool
  protocol : UInt8
  nearPort : UInt16
  farPort : UInt16
  endpoints : Endpoints
deriving DecidableEq

namespace Datum

def ofNat (n : Nat) : Datum := integer n

def ofBool (b : Bool) : Datum := integer (if b then 1 else 0)

end Datum

def Endpoints.column : Endpoints → Field → Datum
  | .v4 near _, .near4 => .ofNat near.toNat
  | .v4 _ far, .far4 => .ofNat far.toNat
  | .v6 near _, .near6 => .blob near.octets
  | .v6 _ far, .far6 => .blob far.octets
  | _, _ => .null

def NewConnection.entry (c : NewConnection) (id : Int) : Entry where
  id := id
  appId := .integer c.appId
  time := .integer c.time
  pid := .ofNat c.pid.toNat
  reason := .integer c.reason.code
  blocked := .ofBool c.blocked
  inherited := .ofBool c.inherited
  inbound := .ofBool c.inbound
  protocol := .ofNat c.protocol.toNat
  nearPort := .ofNat c.nearPort.toNat
  farPort := .ofNat c.farPort.toNat
  near4 := c.endpoints.column .near4
  far4 := c.endpoints.column .far4
  near6 := c.endpoints.column .near6
  far6 := c.endpoints.column .far6

namespace Datum

def asInteger (field : Field) : Datum → Except DatabaseFault Int
  | integer value => .ok value
  | other => .error (.wrongKind field other.kindName)

def asFlag (field : Field) (d : Datum) : Except DatabaseFault Bool :=
  (d.asInteger field).map (· ≠ 0)

def asInteger? (field : Field) : Datum → Except DatabaseFault (Option Int)
  | null => .ok none
  | integer value => .ok (some value)
  | other => .error (.wrongKind field other.kindName)

def asBytes? (field : Field) : Datum → Except DatabaseFault (Option (List UInt8))
  | null => .ok none
  | blob bytes => .ok (some bytes)
  | other => .error (.wrongKind field other.kindName)

def asText (field : Field) : Datum → Except DatabaseFault String
  | text value => .ok value
  | malformed bytes =>
    match Utf8.decode bytes with
    | .ok value => .ok value
    | .error fault => .error (.malformedText field fault)
  | other => .error (.wrongKind field other.kindName)

end Datum

namespace Entry

/-- The value in a column, where `path` is the one in the table of applications. -/
def value (e : Entry) (path : Datum) : Field → Datum
  | .id => .integer e.id
  | .appId => e.appId
  | .time => e.time
  | .pid => e.pid
  | .reason => e.reason
  | .blocked => e.blocked
  | .inherited => e.inherited
  | .inbound => e.inbound
  | .protocol => e.protocol
  | .nearPort => e.nearPort
  | .farPort => e.farPort
  | .near4 => e.near4
  | .far4 => e.far4
  | .near6 => e.near6
  | .far6 => e.far6
  | .path => path

/-- Columns are read one after the other, addresses first, and reading stops at
the first one whose value is of another kind than the column is meant for. -/
def read (e : Entry) (path : Datum) : Except DatabaseFault Record := do
  let near4 ← e.near4.asInteger? .near4
  let far4 ← e.far4.asInteger? .far4
  let near6 ← e.near6.asBytes? .near6
  let far6 ← e.far6.asBytes? .far6
  let appId ← e.appId.asInteger .appId
  let time ← e.time.asInteger .time
  let pid ← e.pid.asInteger .pid
  let reason ← e.reason.asInteger .reason
  let blocked ← e.blocked.asFlag .blocked
  let inherited ← e.inherited.asFlag .inherited
  let inbound ← e.inbound.asFlag .inbound
  let protocol ← e.protocol.asInteger .protocol
  let nearPort ← e.nearPort.asInteger .nearPort
  let farPort ← e.farPort.asInteger .farPort
  let path ← path.asText .path
  return {
    id := e.id
    appId, time, pid, reason, blocked, inherited, inbound, protocol, nearPort, farPort
    isV6 := near4.isNone
    near4 := near4.getD 0
    far4 := far4.getD 0
    near6 := near6.getD []
    far6 := far6.getD []
    path }

end Entry

end ConnectionLog
