import ConnectionLog.Text.Pieces

/-!
Options of a command line. Long options take their value behind an equals sign or
from the next argument, short ones also directly behind their letter, and short
options without a value may share one dash.
-/
namespace ConnectionLog.Options

structure Spec where
  name : String
  letter : Option Char
  /-- Which values the option takes, if it takes one. -/
  accepts : Option (String → Bool)

structure Given where
  name : String
  value : Option String

/-- Where reading options stops: at the first word that is none, or at an option
that is unknown or lacks a value that it takes. -/
inductive Stop where
  | words (rest : List String)
  | broken

/-- Whether an argument cannot be the value of the option before it. -/
def isOption : List Char → Bool
  | '-' :: _ :: _ => true
  | _ => false

/-- What an argument says on its own. The last option in it may want a value. -/
structure Partial where
  given : List Given
  wanting : Option Spec
  broken : Bool

def Spec.takes (spec : Spec) (value : String) : Bool := spec.accepts.any (· value)

def Spec.assigned (spec : Spec) (value : String) : Partial :=
  if spec.takes value then ⟨[⟨spec.name, some value⟩], none, false⟩ else ⟨[], none, true⟩

def readLong (specs : List Spec) (cs : List Char) : Partial :=
  let (name, value) := Pieces.cut '=' cs
  match specs.find? (·.name = String.ofList name) with
  | none => ⟨[], none, true⟩
  | some spec =>
    match spec.accepts, value with
    | some _, some value => spec.assigned (String.ofList value)
    | some _, none => ⟨[], some spec, false⟩
    | none, some _ => ⟨[], none, true⟩
    | none, none => ⟨[⟨spec.name, none⟩], none, false⟩

def dropAssignment : List Char → List Char
  | '=' :: cs => cs
  | cs => cs

def readShort (specs : List Spec) : List Char → Partial
  | [] => ⟨[], none, false⟩
  | letter :: cs =>
    match specs.find? (·.letter = some letter) with
    | none => ⟨[], none, true⟩
    | some spec =>
      if spec.accepts.isSome then
        if cs = [] then ⟨[], some spec, false⟩
        else spec.assigned (String.ofList (dropAssignment cs))
      else
        let later := readShort specs cs
        { later with given := ⟨spec.name, none⟩ :: later.given }

def read (specs : List Spec) (wanting : Option Spec) : List String → List Given × Stop
  | [] => ([], if wanting.isSome then .broken else .words [])
  | arg :: args =>
    match wanting, arg.toList with
    | some spec, cs =>
      if isOption cs || !spec.takes arg then ([], .broken)
      else
        let (given, stop) := read specs none args
        (⟨spec.name, some arg⟩ :: given, stop)
    | none, '-' :: '-' :: c :: cs =>
      let now := readLong specs (c :: cs)
      if now.broken then (now.given, .broken)
      else
        let (given, stop) := read specs now.wanting args
        (now.given ++ given, stop)
    | none, ['-', '-'] => ([], .words (arg :: args))
    | none, '-' :: c :: cs =>
      let now := readShort specs (c :: cs)
      if now.broken then (now.given, .broken)
      else
        let (given, stop) := read specs now.wanting args
        (now.given ++ given, stop)
    | none, _ => ([], .words (arg :: args))

def value? (given : List Given) (name : String) : Option String :=
  (given.find? (·.name = name)).bind (·.value)

def has (given : List Given) (name : String) : Bool := given.any (·.name = name)

end ConnectionLog.Options
