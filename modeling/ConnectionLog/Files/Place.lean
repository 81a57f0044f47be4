import ConnectionLog.Text.Path

/-!
Places in a tree of directories. A place is the list of names that lead to it
from the root, so that every place has one form.
-/
namespace ConnectionLog

abbrev Place := List String

namespace Place

/-- Where one part of a path leads from a place. There is nothing above the root. -/
def step (place : Place) (part : List Char) : Place :=
  if !Path.isStep part then place
  else if part = ['.', '.'] then place.dropLast
  else place ++ [String.ofList part]

def along (place : Place) : List (List Char) → List Place
  | [] => []
  | part :: rest => place.step part :: along (place.step part) rest

def beside (place : Place) (ending : String) : Place :=
  match place.getLast? with
  | some name => place.dropLast ++ [name ++ ending]
  | none => place

def fits (name : String) : Bool := name.utf8ByteSize ≤ 255

def text (place : Place) : String := "/" ++ String.intercalate "/" place

def size (place : Place) : Nat := place.foldl (fun n name => n + name.utf8ByteSize + 1) 0

end Place

end ConnectionLog
