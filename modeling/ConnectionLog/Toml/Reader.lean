import ConnectionLog.Toml.Document
import ConnectionLog.Toml.Scalar

/-!
Reading a TOML document: values first, then the statements of a text, then the
table they build.
-/
namespace ConnectionLog.Toml

/-- Arrays and inline tables may be nested this deep, and keys have at most this
many parts. -/
def deepest : Nat := 79

/-- The items of an array after its opening bracket. A comma may follow the last
one, and lines may end anywhere between them. Each item takes up room, so that
there are fewer than `room`. -/
def readItems (item : Reader Value) (room : Nat) (cs : List Char) :
    Option (List Value × List Char) :=
  match room with
  | 0 => none
  | room + 1 =>
    match skipLines false cs with
    | ']' :: rest => some ([], rest)
    | cs =>
      match item cs with
      | none => none
      | some (value, cs) =>
        match skipLines false cs with
        | ',' :: cs => (readItems item room cs).map fun (values, rest) => (value :: values, rest)
        | ']' :: rest => some ([value], rest)
        | _ => none

def readAssignment (item : Reader Value) (cs : List Char) :
    Option ((List String × String × Value) × List Char) :=
  match readDotted deepest cs with
  | some ((path, key), '=' :: cs) =>
    (item (skipBlanks cs)).map fun (value, rest) => ((path, key, value), rest)
  | _ => none

/-- The entries of an inline table up to its closing brace, added to those read
before. No comma follows the last one. -/
def readEntries (item : Reader Value) (room : Nat) (entries : Entries) (cs : List Char) :
    Option (Entries × List Char) :=
  match room with
  | 0 => none
  | room + 1 =>
    match readAssignment item cs with
    | none => none
    | some ((path, key, value), cs) =>
      match entries.addDotted? path key value with
      | none => none
      | some entries =>
        match skipBlanks cs with
        | ',' :: cs => readEntries item room entries cs
        | '}' :: rest => some (entries, rest)
        | _ => none

def readInline (item : Reader Value) (cs : List Char) : Option (Entries × List Char) :=
  match skipBlanks cs with
  | '}' :: rest => some ([], rest)
  | cs => readEntries item cs.length [] cs

def readValue (depth : Nat) (cs : List Char) : Option (Value × List Char) :=
  match depth with
  | 0 => readScalar cs
  | depth + 1 =>
    match cs with
    | '[' :: rest =>
      (readItems (readValue depth) (rest.length + 1) rest).map fun (items, rest) =>
        (.array items, rest)
    | '{' :: rest =>
      (readInline (readValue depth) rest).map fun (entries, rest) => (.table .closed entries, rest)
    | cs => readScalar cs

def readHeader (cs : List Char) : Option (Statement × List Char) :=
  match readDotted deepest cs with
  | some ((path, key), ']' :: cs) => (endLine? cs).map fun rest => (.header path key, rest)
  | _ => none

def readArrayHeader (cs : List Char) : Option (Statement × List Char) :=
  match readDotted deepest cs with
  | some ((path, key), ']' :: ']' :: cs) =>
    (endLine? cs).map fun rest => (.arrayHeader path key, rest)
  | _ => none

def readEntry (cs : List Char) : Option (Statement × List Char) :=
  match readAssignment (readValue deepest) cs with
  | some ((path, key, value), cs) =>
    (endLine? cs).map fun rest => (.entry path key value, rest)
  | none => none

def readLine (cs : List Char) : Option (Option Statement × List Char) :=
  match endLine? cs with
  | some rest => some (none, rest)
  | none =>
    let statement :=
      match cs with
      | '[' :: '[' :: rest => readArrayHeader rest
      | '[' :: rest => readHeader rest
      | cs => readEntry cs
    statement.map fun (statement, rest) => (some statement, rest)

/-- The statements of a text. Each line takes up room, so that there are fewer
than `room`. -/
def readStatements (room : Nat) (cs : List Char) : Option (List Statement) :=
  match room with
  | 0 => none
  | room + 1 =>
    match skipBlanks cs with
    | [] => some []
    | cs =>
      match readLine cs with
      | none => none
      | some (statement, rest) =>
        (readStatements room rest).map fun statements => statement.toList ++ statements

/-- A byte order mark in front of a text is not part of it. -/
def skipMark : List Char → List Char
  | '\ufeff' :: cs => cs
  | cs => cs

def statements? (text : String) : Option (List Statement) :=
  let cs := skipMark text.toList
  readStatements (cs.length + 1) cs

def parse? (text : String) : Option Entries := do
  let document ← Document.ofStatements? (← statements? text)
  return document.entries

end ConnectionLog.Toml
