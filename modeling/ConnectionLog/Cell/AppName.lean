import ConnectionLog.Text.Path

/-!
Display names of applications. The name is the last piece of the path without
its extension. Paths may use slashes or backslashes.
-/
namespace ConnectionLog.AppName

def isSeparator (c : Char) : Bool := c = '/' || c = '\\'

/-- A name up to its last dot, all of it if it has none but in front. -/
def stem (name : List Char) : List Char :=
  match name.reverse.dropWhile (· ≠ '.') with
  | [] => name
  | _ :: before => if before = [] then name else before.reverse

def lastPiece (path : List Char) : List Char :=
  match Pieces.afterLast isSeparator path with
  | [] => path
  | piece => piece

/-- A piece that names nothing, such as `..`, is shown as it is. -/
def chars (path : List Char) : List Char :=
  match (Path.ofChars (lastPiece path)).name? with
  | some part => stem part
  | none => lastPiece path

def ofPath (path : String) : String := String.ofList (chars path.toList)

end ConnectionLog.AppName
