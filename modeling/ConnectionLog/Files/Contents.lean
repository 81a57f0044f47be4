import ConnectionLog.Log.Database

/-!
What a file holds: a database, or bytes that are none.
-/
namespace ConnectionLog

inductive Contents where
  | bytes (bytes : List UInt8)
  /-- A database, and whether changes to it are written ahead into another file. -/
  | database (db : Database) (ahead : Bool)
deriving DecidableEq

namespace Contents

def isEmpty : Contents → Bool
  | bytes [] => true
  | _ => false

/-- Whether a database could be put here. A single byte does not count. -/
def isBlank : Contents → Bool
  | bytes [] | bytes [_] => true
  | _ => false

def startsWithZero : Contents → Bool
  | bytes (0 :: _) => true
  | _ => false

def found : Contents → Except DatabaseFault Database
  | database db _ => .ok db
  | bytes [] | bytes [_] => .ok Database.bare
  | bytes _ => .error .notADatabase

def isAhead : Contents → Bool
  | database _ ahead => ahead
  | bytes _ => false

end Contents

end ConnectionLog
