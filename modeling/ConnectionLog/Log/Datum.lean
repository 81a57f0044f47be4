import ConnectionLog.Text.Utf8

/-!
Values of the columns of a log. A column may hold a value of any kind, whatever
kind it is meant for.
-/
namespace ConnectionLog

inductive Datum where
  | null
  | integer (value : Int)
  /-- A number that is no integer. What it is makes no difference to a log, and one
  and a half stands for all of them. -/
  | real
  | text (value : String)
  /-- A text whose bytes encode no characters. -/
  | malformed (bytes : List UInt8)
  | blob (bytes : List UInt8)
deriving DecidableEq

namespace Datum

def ofTextBytes (bytes : List UInt8) : Datum :=
  match Utf8.decode bytes with
  | .ok value => text value
  | .error _ => malformed bytes

def kindName : Datum → String
  | null => "Null"
  | integer _ => "Integer"
  | real => "Real"
  | text _ => "Text"
  | malformed _ => "Text"
  | blob _ => "Blob"

end Datum

inductive Field where
  | id
  | appId
  | time
  | pid
  | reason
  | blocked
  | inherited
  | inbound
  | protocol
  | nearPort
  | farPort
  | near4
  | far4
  | near6
  | far6
  | path
deriving DecidableEq

namespace Field

/-- In the order of their positions. -/
def all : List Field :=
  [id, appId, time, pid, reason, blocked, inherited, inbound, protocol, nearPort, farPort,
    near4, far4, near6, far6, path]

def position : Field → Nat
  | id => 0
  | appId => 1
  | time => 2
  | pid => 3
  | reason => 4
  | blocked => 5
  | inherited => 6
  | inbound => 7
  | protocol => 8
  | nearPort => 9
  | farPort => 10
  | near4 => 11
  | far4 => 12
  | near6 => 13
  | far6 => 14
  | path => 15

def name : Field → String
  | id => "conn_id"
  | appId => "app_id"
  | time => "conn_time"
  | pid => "process_id"
  | reason => "reason"
  | blocked => "blocked"
  | inherited => "inherited"
  | inbound => "inbound"
  | protocol => "ip_proto"
  | nearPort => "local_port"
  | farPort => "remote_port"
  | near4 => "local_ip"
  | far4 => "remote_ip"
  | near6 => "local_ip6"
  | far6 => "remote_ip6"
  | path => "path"

def isOptional : Field → Bool
  | near4 | far4 | near6 | far6 => true
  | _ => false

end Field

end ConnectionLog
