import ConnectionLog.Files.Opening

/-!
Made-up connections to fill a log with. The connection of an index is the same in
every log but for its time and the identifiers of the applications.
-/
namespace ConnectionLog.Seed

def apps : List String :=
  ["/usr/bin/curl", "/usr/lib/firefox/firefox", "/usr/sbin/sshd",
    "C:\\Windows\\System32\\svchost.exe"]

def ofGroups (groups : List UInt16) : Ipv6 :=
  Ipv6.ofBytes (groups.flatMap fun g => [(g / 256).toUInt8, (g % 256).toUInt8])

def endpoints (v6 : Bool) (index : Nat) : Endpoints :=
  if v6 then
    .v6 (ofGroups [0xFE80, 0, 0, 0, 0, 0, 0, 1])
      (ofGroups [0x2001, 0xDB8, 0, 0, 0, 0, 0, UInt16.ofNat (index % 65535 + 1)])
  else
    .v4 (UInt32.ofNat 0xC0A8010A) (UInt32.ofNat (0xCB000000 + index % 65536))

def farPort (index : Nat) : UInt16 :=
  match index % 4 with
  | 0 => 443
  | 1 => 80
  | 2 => 53
  | _ => 22

/-- The connection of an index, by one of the applications in turn. -/
def connection (appIds : List Int) (now : Int) (v6 : Bool) (index : Nat) : NewConnection where
  appId := appIds.getD (index % 4) 0
  time := now + index
  pid := UInt32.ofNat (1000 + index % 500)
  reason := Reason.ofCode (index % 11 + 1 : Nat)
  blocked := index % 3 = 0
  inherited := index % 5 = 0
  inbound := index % 4 = 0
  protocol := if index % 2 = 0 then 6 else 17
  nearPort := UInt16.ofNat (40000 + index % 20000)
  farPort := farPort index
  endpoints := endpoints v6 index

abbrev Calls (α : Type) := OpenLog × Except DatabaseFault α

def callId (log : OpenLog) (w : Log.Write) : Calls Int :=
  match log.call (.write w) with
  | .ok (.outcome (.id id), log) => (log, .ok id)
  | .ok (_, log) => (log, .ok 0)
  | .error fault => (log, .error fault)

def register (log : OpenLog) : List String → Calls (List Int)
  | [] => (log, .ok [])
  | path :: rest =>
    match callId log (.register path) with
    | (log, .error fault) => (log, .error fault)
    | (log, .ok id) =>
      match register log rest with
      | (log, .error fault) => (log, .error fault)
      | (log, .ok ids) => (log, .ok (id :: ids))

/-- Appends the connections of some indices. The answer is the identifier of the
last one, which is `last` if there are none. -/
def append (connection : Nat → NewConnection) (log : OpenLog) (last : Option Int) :
    List Nat → Calls (Option Int)
  | [] => (log, .ok last)
  | index :: rest =>
    match callId log (.append (connection index)) with
    | (log, .error fault) => (log, .error fault)
    | (log, .ok id) => append connection log (some id) rest

end ConnectionLog.Seed
