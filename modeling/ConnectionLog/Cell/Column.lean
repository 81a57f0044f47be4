import ConnectionLog.Address.Text
import ConnectionLog.Calendar
import ConnectionLog.Cell.AppName
import ConnectionLog.Cell.HostNames
import ConnectionLog.Record.Connection

/-!
The columns of the table of connections and the texts of their cells. Three
columns are shown as pictures only: their text is found in the hint of the cell.
-/
namespace ConnectionLog

inductive Column where
  | program
  | processId
  | protocol
  | nearEnd
  | farEnd
  | direction
  | action
  | reason
  | time
deriving DecidableEq

inductive Role where
  | display
  | hint
deriving DecidableEq

structure View where
  resolve : Bool
  hosts : HostNames

namespace Column

def all : List Column :=
  [program, processId, protocol, nearEnd, farEnd, direction, action, reason, time]

def ofPosition? (position : Nat) : Option Column := all[position]?

def title : Column → String
  | program => "Program"
  | processId => "Process ID"
  | protocol => "Protocol"
  | nearEnd => "Local IP and Port"
  | farEnd => "Remote IP and Port"
  | direction => "Direction"
  | action => "Action"
  | reason => "Reason"
  | time => "Time"

def isPictorial : Column → Bool
  | direction | action | reason => true
  | _ => false

def heading? (c : Column) : Option String :=
  if c.isPictorial then none else some c.title

end Column

def protocolName (number : UInt8) : String :=
  if number = 1 then "ICMP"
  else if number = 2 then "IGMP"
  else if number = 6 then "TCP"
  else if number = 17 then "UDP"
  else if number = 58 then "ICMPv6"
  else Numeral.natText number.toNat

/-- The address, or the name of its host if it is to be resolved and known. -/
def View.hostText (v : View) (address : Address) : String :=
  match v.resolve, v.hosts.name? address.text with
  | true, some name => name
  | _, _ => address.text

/-- Host and port; a host of version six is written in brackets. -/
def View.endText (v : View) (address : Address) (port : UInt16) : String :=
  let host := v.hostText address
  (if address.isV6 then "[" ++ host ++ "]" else host) ++ ":" ++ Numeral.natText port.toNat

namespace Connection

def moment? (c : Connection) : Option Calendar.Moment :=
  Calendar.Moment.ofSeconds? c.time

def reasonText (c : Connection) : String :=
  if c.inherited then c.reason.text ++ " (Inherited)" else c.reason.text

def columnText? (c : Connection) (v : View) : Column → Option String
  | .program => some (AppName.ofPath c.path)
  | .processId => some (Numeral.natText c.pid.toNat)
  | .protocol => some (protocolName c.protocol)
  | .nearEnd => some (v.endText c.endpoints.near c.nearPort)
  | .farEnd => some (v.endText c.endpoints.far c.farPort)
  | .direction => some (if c.inbound then "In" else "Out")
  | .action => some (if c.blocked then "Blocked" else "Allowed")
  | .reason => some c.reasonText
  | .time => c.moment?.map (·.text)

def cellText? (c : Connection) (v : View) (column : Column) (role : Role) : Option String :=
  if column.isPictorial && role = .display then none else c.columnText? v column

end Connection

end ConnectionLog
