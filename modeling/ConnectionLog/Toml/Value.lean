/-!
The values of a TOML document. A table remembers how it came about, because that
decides what later lines of the document may still add to it.
-/
namespace ConnectionLog.Toml

inductive Form where
  /-- Written between braces, and complete. -/
  | closed
  /-- Opened by its own header. -/
  | header
  /-- Passed through by the header of a table inside it. -/
  | implied
  /-- Passed through by a dotted key. -/
  | dotted
deriving DecidableEq

inductive Value where
  | string (value : String)
  | integer (value : Int)
  /-- A number with a fraction or an exponent; which one is not kept. -/
  | float
  | boolean (value : Bool)
  /-- A date, a time or both, in its shortest spelling. -/
  | dateTime (text : String)
  | array (items : List Value)
  /-- The tables opened by double headers of one name. -/
  | tables (items : List (List (String × Value)))
  | table (form : Form) (entries : List (String × Value))

abbrev Entries := List (String × Value)

namespace Entries

def add? (entries : Entries) (key : String) (value : Value) : Option Entries :=
  if (entries.lookup key).isSome then none else some (entries ++ [(key, value)])

def replace (entries : Entries) (key : String) (value : Value) : Entries :=
  entries.map fun e => if e.1 = key then (key, value) else e

end Entries

end ConnectionLog.Toml
