import ConnectionLog.Numeral
import ConnectionLog.Toml.Lexeme

/-!
Writing strings and keys of TOML in the plainest form that can hold them.
-/
namespace ConnectionLog.Toml

inductive Quoting where
  | basic
  | literal
  | basicLines
  | literalLines
deriving DecidableEq

def needsEscape (c : Char) : Bool := isControl c && c ≠ '\n'

/-- The longest run of a character that is in progress or still to come, where
`run` of them came just before. -/
def longestRunFrom (quote : Char) (run : Nat) : List Char → Nat
  | [] => run
  | c :: cs =>
    if c = quote then longestRunFrom quote (run + 1) cs
    else max run (longestRunFrom quote 0 cs)

def longestRun (quote : Char) (cs : List Char) : Nat := longestRunFrom quote 0 cs

def Quoting.choose (cs : List Char) : Quoting :=
  let lines := cs.contains '\n'
  let control := cs.any needsEscape
  let backslash := cs.contains '\\'
  if !control && !backslash && longestRun '"' cs = 0 && !lines then basic
  else if !control && longestRun '\'' cs = 0 && !lines then literal
  else if !control && !backslash && longestRun '"' cs ≤ 2 then basicLines
  else if !control && longestRun '\'' cs ≤ 2 then literalLines
  else if lines then basicLines
  else basic

def hexCapitals (width n : Nat) : List Char :=
  (Numeral.padded width (Numeral.digits 16 n)).map Char.toUpper

/-- A character other than a quote in a string with escapes. Ends of lines are
escaped only if the string is to stay in one line. -/
def escape (lines : Bool) (c : Char) : List Char :=
  if c = '\x08' then ['\\', 'b']
  else if c = '\t' then ['\\', 't']
  else if c = '\n' then (if lines then ['\n'] else ['\\', 'n'])
  else if c = '\x0c' then ['\\', 'f']
  else if c = '\r' then ['\\', 'r']
  else if c = '\\' then ['\\', '\\']
  else if isControl c then '\\' :: 'u' :: hexCapitals 4 c.toNat
  else [c]

def escapeQuote : List Char := ['\\', '"']

def basicChars (cs : List Char) : List Char :=
  cs.flatMap fun c => if c = '"' then escapeQuote else escape false c

/-- Of a run of quotes every third is escaped, so that no three come together;
`run` of them came just before. -/
def basicLinesFrom (run : Nat) : List Char → List Char
  | [] => []
  | c :: cs =>
    if c = '"' then
      if run = 2 then escapeQuote ++ basicLinesFrom 0 cs else '"' :: basicLinesFrom (run + 1) cs
    else escape true c ++ basicLinesFrom 0 cs

def quotes (quote : Char) : List Char := [quote, quote, quote]

/-- What follows the opening quotes: a string with several lines starts in a line
of its own. -/
def margin (cs : List Char) : List Char := if cs.contains '\n' then ['\n'] else []

def Quoting.write (cs : List Char) : Quoting → List Char
  | basic => '"' :: basicChars cs ++ ['"']
  | literal => '\'' :: cs ++ ['\'']
  | basicLines => quotes '"' ++ margin cs ++ basicLinesFrom 0 cs ++ quotes '"'
  | literalLines => quotes '\'' ++ margin cs ++ cs ++ quotes '\''

def writeString (s : String) : List Char := (Quoting.choose s.toList).write s.toList

def writeKeyChars (cs : List Char) : List Char :=
  let control := cs.any fun c => isControl c
  if cs ≠ [] && cs.all isBare then cs
  else if !control && !cs.contains '\\' && !cs.contains '"' then Quoting.basic.write cs
  else if !control && !cs.contains '\'' then Quoting.literal.write cs
  else Quoting.basic.write cs

def writeKey (key : String) : List Char := writeKeyChars key.toList

def writeBoolean (b : Bool) : List Char := if b then "true".toList else "false".toList

end ConnectionLog.Toml
