import ConnectionLog.Log.Fault
import ConnectionLog.Numeral
import ConnectionLog.Text.Pieces

/-!
Paths of databases. A path that starts with a scheme is a locator: it names the
database with percent escapes and says in parameters how it is to be used. Any
other path is the name of the database as it stands.
-/
namespace ConnectionLog

/-- How a database may be used: only to read it, to write to one that is there, to
make it if it is missing, or in memory. -/
inductive Access where
  | reading
  | writing
  | creating
  | memory
deriving DecidableEq

namespace Access

def ofText? : String → Option Access
  | "ro" => some reading
  | "rw" => some writing
  | "rwc" => some creating
  | "memory" => some memory
  | _ => none

/-- A locator may give up rights, but not take more than it is granted. Memory
needs none. -/
def isWithin (asked : Access) : Access → Bool
  | reading => asked = reading || asked = memory
  | writing => asked ≠ creating
  | creating => true
  | memory => true

end Access

inductive Sharing where
  | beside
  | alone
  | unchanging
deriving DecidableEq

structure Locator where
  name : String
  access : Access
  sharing : Sharing
  /-- Whether the database is in a file. -/
  kept : Bool

namespace Locator

def nowhere : String := ":memory:"

def afterScheme? : List Char → Option (List Char)
  | 'f' :: 'i' :: 'l' :: 'e' :: ':' :: rest => some rest
  | _ => none

def withoutMachine : List Char → Except LocatorFault (List Char)
  | '/' :: '/' :: rest =>
    let machine := rest.takeWhile (· ≠ '/')
    if machine = [] ∨ machine = "localhost".toList then .ok (rest.dropWhile (· ≠ '/'))
    else .error (.authority (String.ofList machine))
  | cs => .ok cs

/-- The bytes of a part of a locator. A percent sign before two hexadecimal digits
stands for a byte, and everything behind a zero is left out. -/
def unescape : List Char → List UInt8
  | [] => []
  | '%' :: high :: low :: rest =>
    match Numeral.digit? high, Numeral.digit? low with
    | some h, some l =>
      if h * 16 + l = 0 then [] else UInt8.ofNat (h * 16 + l) :: unescape rest
    | _, _ => "%".toUTF8.toList ++ unescape (high :: low :: rest)
  | c :: rest => (String.singleton c).toUTF8.toList ++ unescape rest

/-- Bytes that are no text are taken for the characters of their numbers. -/
def partText (cs : List Char) : String :=
  match Utf8.decode (unescape cs) with
  | .ok text => text
  | .error _ => String.ofList ((unescape cs).map fun b => Char.ofNat b.toNat)

structure Parameter where
  name : String
  value : String

def Parameter.ofChars (cs : List Char) : Parameter :=
  let (name, value) := Pieces.cut '=' cs
  ⟨partText name, partText (value.getD [])⟩

def parameters (query : List Char) : List Parameter :=
  ((Pieces.splitOn '&' query).map .ofChars).filter (·.name ≠ "")

def lastValue? (ps : List Parameter) (name : String) : Option String :=
  (ps.reverse.find? (·.name = name)).map (·.value)

/-- Whether a parameter is on by its first value: by a word for yes, or by a number
that is not zero in its last byte. -/
def isOn (ps : List Parameter) (name : String) : Bool :=
  match ps.find? (·.name = name) with
  | none => false
  | some p =>
    match Numeral.value? 10 (p.value.toList.takeWhile (Numeral.isDigit 10)) with
    | some n => n < 2147483648 && n % 256 ≠ 0
    | none => ["on", "yes", "true"].contains p.value.toLower

def accessAfter (granted : Access) : List Parameter → Except LocatorFault Access
  | [] => .ok granted
  | p :: rest =>
    match p.name with
    | "mode" =>
      match Access.ofText? p.value with
      | none => .error (.noSuchMode "access" p.value)
      | some asked =>
        if asked.isWithin granted then accessAfter asked rest
        else .error (.refusedMode "access" p.value)
    | "cache" =>
      if p.value = "shared" ∨ p.value = "private" then accessAfter granted rest
      else .error (.noSuchMode "cache" p.value)
    | _ => accessAfter granted rest

def sharingOf? : String → Option Sharing
  | "unix" | "unix-excl" | "memdb" => some .beside
  | "unix-none" | "unix-dotfile" => some .alone
  | _ => none

def ofParts (granted : Access) (name query : List Char) : Except LocatorFault Locator := do
  let ps := parameters query
  let access ← accessAfter granted ps
  let system := (lastValue? ps "vfs").getD "unix"
  let name := partText name
  match sharingOf? system with
  | none => .error (.noSuchSystem system)
  | some sharing =>
    .ok {
      name, access
      sharing :=
        if isOn ps "immutable" then .unchanging else if isOn ps "nolock" then .alone else sharing
      kept := name ≠ "" && name ≠ nowhere && access ≠ .memory && system ≠ "memdb" }

/-- The locator that a path is, with the access that is granted to it. What follows
a number sign says nothing. -/
def ofPath (granted : Access) (path : String) : Except LocatorFault Locator :=
  match afterScheme? path.toList with
  | none => .ok ⟨path, granted, .beside, path ≠ nowhere && path ≠ ""⟩
  | some rest => do
    let rest ← withoutMachine rest
    let (name, query) := Pieces.cut '?' (Pieces.cut '#' rest).1
    ofParts granted name (query.getD [])

end Locator

end ConnectionLog
