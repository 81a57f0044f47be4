import ConnectionLog.Address.Basic
import ConnectionLog.Record.Reason

/-!
Connections as they are stored and as they are shown. A stored record holds
numbers of any size and both families of addresses; `Record.decode` keeps of
them what a connection has room for.
-/
namespace ConnectionLog

structure Record where
  id : Int
  appId : Int
  time : Int
  pid : Int
  reason : Int
  blocked : Bool
  inherited : Bool
  inbound : Bool
  protocol : Int
  nearPort : Int
  farPort : Int
  /-- Says which of the two families of fields holds the addresses. -/
  isV6 : Bool
  near4 : Int
  far4 : Int
  near6 : List UInt8
  far6 : List UInt8
  path : String
deriving DecidableEq

/-- A connection. Its time counts seconds from the start of 1970. -/
structure Connection where
  id : Int
  appId : Int
  time : Int
  pid : UInt32
  reason : Reason
  blocked : Bool
  inherited : Bool
  inbound : Bool
  protocol : UInt8
  nearPort : UInt16
  farPort : UInt16
  endpoints : Endpoints
  path : String
deriving DecidableEq

namespace Record

def endpoints (r : Record) : Endpoints :=
  if r.isV6 then .v6 (Ipv6.ofBytes r.near6) (Ipv6.ofBytes r.far6)
  else .v4 (UInt32.ofInt r.near4) (UInt32.ofInt r.far4)

/-- Of a number that is too wide the low bits are kept. -/
def decode (r : Record) : Connection where
  id := r.id
  appId := r.appId
  time := r.time
  pid := UInt32.ofInt r.pid
  reason := Reason.ofCode r.reason
  blocked := r.blocked
  inherited := r.inherited
  inbound := r.inbound
  protocol := UInt8.ofInt r.protocol
  nearPort := UInt16.ofInt r.nearPort
  farPort := UInt16.ofInt r.farPort
  endpoints := r.endpoints
  path := r.path

end Record

end ConnectionLog
