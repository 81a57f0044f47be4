import ConnectionLog.Command.Options
import ConnectionLog.Limits
import ConnectionLog.Numeral

/-!
What the arguments of the program ask for. General options come before the name
of a command, and options of the command after it.
-/
namespace ConnectionLog

inductive Command where
  | range
  | list (offset : Nat) (limit : Option Nat) (resolve : Bool)
  | watch (polls : Option Nat)
  | seed (count : Nat) (v6 : Bool)
  | prune (before : Int)
deriving DecidableEq

structure Invocation where
  config : String
  database : Option String
  level : Option String
  command : Command
deriving DecidableEq

inductive Request where
  | version
  | help
  | run (invocation : Invocation)
deriving DecidableEq

namespace Request

open Options

def countBelow? (bound : Nat) (text : String) : Option Nat :=
  match Numeral.unsigned? text.toList with
  | some n => if n < bound then some n else none
  | none => none

def intBetween? (low high : Int) (text : String) : Option Int :=
  match Numeral.signed? text.toList with
  | some i => if low ≤ i ∧ i ≤ high then some i else none
  | none => none

def count? (text : String) : Option Nat := countBelow? (maxCount + 1) text

/-- The count may be written with a minus sign if it is zero. -/
def seedCount? (text : String) : Option Int := intBetween? 0 4294967295 text

def pruneId? (text : String) : Option Int := intBetween? minId maxId text

def flag (name : String) (letter : Option Char) : Spec := ⟨name, letter, none⟩

def valued {α : Type} (name : String) (letter : Option Char) (read : String → Option α) : Spec :=
  ⟨name, letter, some fun text => (read text).isSome⟩

def fileName? (text : String) : Option String := if text = "" then none else some text

def helpSpec : Spec := flag "help" 'h'

def generalSpecs : List Spec :=
  [valued "config" 'c' fileName?, valued "db" none fileName?, valued "log-level" none some,
    helpSpec, flag "version" 'V']

/-- The option that makes all the others irrelevant, if it comes before anything
wrong. -/
inductive Verdict where
  | version
  | help
  | fine
  | wrong

def judge (before : List Given) : List Given → Verdict
  | [] => .fine
  | g :: rest =>
    if g.name = "version" then .version
    else if g.name = "help" then .help
    else if has before g.name then .wrong
    else judge (g :: before) rest

/-- The number given for an option, if it was given. Something that is no such
number is refused. -/
def optional? {α : Type} (given : List Given) (name : String) (read : String → Option α) :
    Option (Option α) :=
  match value? given name with
  | some text => (read text).map some
  | none => some none

def required? {α : Type} (given : List Given) (name : String) (read : String → Option α) :
    Option α :=
  (value? given name).bind read

def listSpecs : List Spec :=
  [valued "offset" none count?, valued "limit" 'n' count?, flag "resolve" none]

def watchSpecs : List Spec := [valued "iterations" none count?]

def seedSpecs : List Spec := [valued "count" none seedCount?, flag "ipv6" none]

def pruneSpecs : List Spec := [valued "before" none pruneId?]

def listOf (given : List Given) : Option Command := do
  let offset ← optional? given "offset" count?
  let limit ← optional? given "limit" count?
  return .list (offset.getD 0) limit (has given "resolve")

def watchOf (given : List Given) : Option Command :=
  (optional? given "iterations" count?).map .watch

def seedOf (given : List Given) : Option Command :=
  (required? given "count" seedCount?).map fun count =>
    .seed count.toNat (has given "ipv6")

def pruneOf (given : List Given) : Option Command :=
  (required? given "before" pruneId?).map .prune

def command? : String → Option (List Spec × (List Given → Option Command))
  | "range" => some ([], fun _ => some .range)
  | "list" => some (listSpecs, listOf)
  | "ls" => some (listSpecs, listOf)
  | "watch" => some (watchSpecs, watchOf)
  | "seed" => some (seedSpecs, seedOf)
  | "prune" => some (pruneSpecs, pruneOf)
  | _ => none

/-- Nothing may follow the options of a command but the mark that ends them. -/
def isEnd : Stop → Bool
  | .words [] => true
  | .words ["--"] => true
  | _ => false

inductive Asked where
  | help
  | command (command : Command)

def readCommand (name : String) (args : List String) : Option Asked :=
  match command? name with
  | none => none
  | some (specs, make) =>
    let (given, stop) := Options.read (helpSpec :: specs) none args
    match judge [] given with
    | .help => some .help
    | .fine => if isEnd stop then (make given).map .command else none
    | _ => none

def configName (given : List Given) : String := (value? given "config").getD "connlog.toml"

def isTopic : List String → Bool
  | [] => true
  | [name] => name = "help" || (command? name).isSome
  | _ => false

def ofArguments? (args : List String) : Option Request :=
  let (given, stop) := Options.read generalSpecs none args
  match judge [] given, stop with
  | .version, _ => some .version
  | .help, _ => some .help
  | .fine, .words ("help" :: topics) => if isTopic topics then some .help else none
  | .fine, .words (name :: rest) =>
    match readCommand name rest with
    | some .help => some .help
    | some (.command command) =>
      some (.run ⟨configName given, value? given "db", value? given "log-level", command⟩)
    | none => none
  | _, _ => none

end Request

end ConnectionLog
