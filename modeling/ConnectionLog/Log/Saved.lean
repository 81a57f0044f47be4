import ConnectionLog.Log.Basic
import ConnectionLog.Text.Hex
import ConnectionLog.Text.Pieces

/-!
How a log is kept in a file: as lines of words, one for the memory of
identifiers, one for each application and one for each connection. A value is a
letter for its kind and what follows from that.
-/
namespace ConnectionLog

namespace Datum

def word : Datum → List Char
  | null => ['n']
  | integer value => 'i' :: Numeral.decimalInt value
  | real => ['r']
  | text value => 't' :: Hex.encode value.toUTF8.toList
  | malformed bytes => 't' :: Hex.encode bytes
  | blob bytes => 'b' :: Hex.encode bytes

def ofWord? : List Char → Option Datum
  | ['n'] => some null
  | ['r'] => some real
  | 'i' :: cs => (Numeral.signed? cs).map integer
  | 't' :: cs => (Hex.decode? cs).map ofTextBytes
  | 'b' :: cs => (Hex.decode? cs).map blob
  | _ => none

end Datum

namespace Entry

def data (e : Entry) : List Datum :=
  [.integer e.id, e.appId, e.time, e.pid, e.reason, e.blocked, e.inherited, e.inbound,
    e.protocol, e.nearPort, e.farPort, e.near4, e.far4, e.near6, e.far6]

def ofData? : List Datum → Option Entry
  | [.integer id, appId, time, pid, reason, blocked, inherited, inbound, protocol, nearPort,
      farPort, near4, far4, near6, far6] =>
    some {
      id, appId, time, pid, reason, blocked, inherited, inbound, protocol, nearPort, farPort
      near4, far4, near6, far6 }
  | _ => none

theorem ofData?_data (e : Entry) : ofData? e.data = some e := rfl

end Entry

namespace Log

abbrev Line := List (List Char)

def heading : Line := ["connlog".toList, ['1']]

def lastWord : List Char := "last".toList

def appWord : List Char := "app".toList

def entryWord : List Char := "entry".toList

def lines (log : Log) : List Line :=
  heading :: [lastWord, Numeral.decimal log.lastId] ::
    (log.apps.map fun app => [appWord, (Datum.integer app.id).word, app.path.word]) ++
    log.entries.map fun e => entryWord :: e.data.map Datum.word

/-- The log with what a line says in front of what is there. -/
def withLine? (log : Log) : Line → Option Log
  | [] => none
  | word :: words =>
    if word = lastWord then
      match words with
      | [cs] => (Numeral.value? 10 cs).map fun lastId => { log with lastId }
      | _ => none
    else
      match words.mapM Datum.ofWord? with
      | none => none
      | some data =>
        if word = entryWord then
          (Entry.ofData? data).map fun e => { log with entries := e :: log.entries }
        else if word = appWord then
          match data with
          | [.integer id, path] => some { log with apps := ⟨id, path⟩ :: log.apps }
          | _ => none
        else none

def withLines? : List Line → Option Log
  | [] => some empty
  | line :: rest => (withLines? rest).bind (·.withLine? line)

def ofLines? : List Line → Option Log
  | [] => none
  | line :: rest => if line = heading then withLines? rest else none

def savedText (log : Log) : String :=
  String.ofList (log.lines.flatMap fun line => Pieces.joined [' '] line ++ ['\n'])

def ofSavedText? (text : String) : Option Log :=
  match (Pieces.splitOn '\n' text.toList).reverse with
  | [] :: lines => ofLines? (lines.reverse.map (Pieces.splitOn ' '))
  | _ => none

end Log

end ConnectionLog
