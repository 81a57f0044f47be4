import ConnectionLog.Files.Tree
import ConnectionLog.Log.Saved

/-!
The bytes in which contents of a file are kept.
-/
namespace ConnectionLog.Contents

def saved : Contents → List UInt8
  | database db _ => db.log.savedText.toUTF8.toList
  | bytes content => content

/-- The log that the bytes keep, or else the bytes themselves. -/
def ofSaved (content : List UInt8) : Contents :=
  match Utf8.decode content with
  | .ok text =>
    match Log.ofSavedText? text with
    | some log => database (Database.ofLog log) true
    | none => bytes content
  | .error _ => bytes content

end ConnectionLog.Contents
