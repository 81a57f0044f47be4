import ConnectionLog.Log.Datum

/-!
What can go wrong with a log and the words for it.
-/
namespace ConnectionLog

inductive TableName where
  | apps
  | connections
deriving DecidableEq

def TableName.text : TableName → String
  | .apps => "app"
  | .connections => "conn"

/-- What is wrong with a locator, a path that says how a database is to be used. -/
inductive LocatorFault where
  | authority (text : String)
  | noSuchMode (kind value : String)
  | refusedMode (kind value : String)
  | noSuchSystem (name : String)
deriving DecidableEq

def LocatorFault.message : LocatorFault → String
  | authority text => "invalid uri authority: " ++ text
  | noSuchMode kind value => "no such " ++ kind ++ " mode: " ++ value
  | refusedMode kind value => kind ++ " mode not allowed: " ++ value
  | noSuchSystem name => "no such vfs: " ++ name

inductive DatabaseFault where
  | noSuchTable (table : TableName)
  | tableExists (table : TableName)
  | readOnly
  /-- No identifier is left to give out. -/
  | full
  | notADatabase
  /-- The path is known where it is the database itself that cannot be opened. -/
  | cannotOpen (path : Option String)
  | locator (fault : LocatorFault)
  /-- A path holds a zero after so many bytes. -/
  | zeroInPath (position : Nat)
  | inputOutput
  | wrongKind (field : Field) (kind : String)
  | malformedText (field : Field) (fault : Utf8.Fault)
  /-- A column that identifies rows would hold a value twice. -/
  | duplicate (table : TableName) (column : String)
  | missingValue (table : TableName) (column : String)
deriving DecidableEq

namespace DatabaseFault

def columnText (table : TableName) (column : String) : String := table.text ++ "." ++ column

def message : DatabaseFault → String
  | noSuchTable table => "no such table: " ++ table.text
  | tableExists table => "there is already another table or index with this name: " ++ table.text
  | readOnly => "attempt to write a readonly database"
  | full => "database or disk is full"
  | notADatabase => "file is not a database"
  | cannotOpen none => "unable to open database file"
  | cannotOpen (some path) => "unable to open database file: " ++ path
  | locator fault => fault.message
  | zeroInPath position =>
    "nul byte found in provided data at position: " ++ Numeral.natText position
  | inputOutput => "disk I/O error"
  | wrongKind field kind =>
    "Invalid column type " ++ kind ++ " at index: " ++ Numeral.natText field.position ++
      ", name: " ++ field.name
  | malformedText field fault =>
    "Conversion error from type Text at index: " ++ Numeral.natText field.position ++ ", " ++
      fault.message
  | duplicate table column => "UNIQUE constraint failed: " ++ columnText table column
  | missingValue table column => "NOT NULL constraint failed: " ++ columnText table column

end DatabaseFault

inductive FileFault where
  | notFound
  | exists
  | notADirectory
  | isADirectory
  | nameTooLong
  | invalidName
  | malformedText
deriving DecidableEq

def FileFault.message : FileFault → String
  | notFound => "No such file or directory (os error 2)"
  | .exists => "File exists (os error 17)"
  | notADirectory => "Not a directory (os error 20)"
  | isADirectory => "Is a directory (os error 21)"
  | nameTooLong => "File name too long (os error 36)"
  | invalidName => "file name contained an unexpected NUL byte"
  | malformedText => "stream did not contain valid UTF-8"

inductive LogFault where
  | database (fault : DatabaseFault)
  | file (fault : FileFault)
deriving DecidableEq

def LogFault.message : LogFault → String
  | .database fault => "database error: " ++ fault.message
  | .file fault => "I/O error: " ++ fault.message

end ConnectionLog
