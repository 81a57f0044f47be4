import ConnectionLog.Text.Pieces

/-!
Slash paths. Empty parts and single dots say nothing and are left out, but for a
dot at the very start; paths that agree in the rest are the same.
-/
namespace ConnectionLog

structure Path where
  rooted : Bool
  parts : List (List Char)
deriving DecidableEq

namespace Path

def isStep (part : List Char) : Bool := part ≠ [] && part ≠ ['.']

def ofChars (cs : List Char) : Path where
  rooted := cs.head? = some '/'
  parts :=
    match Pieces.splitOn '/' cs with
    | [] => []
    | first :: rest => (if first = [] then [] else [first]) ++ rest.filter isStep

/-- The last part, if it names something. -/
def name? (p : Path) : Option (List Char) :=
  match p.parts.getLast? with
  | some part => if part = ['.'] ∨ part = ['.', '.'] then none else some part
  | none => none

def ofText (text : String) : Path := ofChars text.toList

def directory (p : Path) : List (List Char) := p.parts.dropLast

def textSize (cs : List Char) : Nat := (String.ofList cs).utf8ByteSize

def limit : Nat := 4096

/-- The bytes in the text of a path that lead to its directory, empty parts and dots
on the way included. -/
def directorySize (cs : List Char) : Nat :=
  let trimmed (parts : List (List Char)) := parts.dropWhile fun part => !isStep part
  let parts := trimmed (trimmed (Pieces.splitOn '/' cs).reverse).tail
  parts.foldl (fun n part => n + textSize part + 1) 0 - 1

end Path

end ConnectionLog
