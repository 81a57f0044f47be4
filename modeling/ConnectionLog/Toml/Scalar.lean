import ConnectionLog.Calendar
import ConnectionLog.Limits
import ConnectionLog.Toml.Lexeme
import ConnectionLog.Toml.Value

/-!
Numbers, truth values, dates and times of TOML.
-/
namespace ConnectionLog.Toml

def skipSign : List Char → List Char
  | '+' :: cs => cs
  | '-' :: cs => cs
  | cs => cs

/-- Digits of a base with single underscores between them; the underscores are
left out of what is read. -/
def readFigures (base : Nat) : Reader (List Char)
  | c :: '_' :: d :: rest =>
    if Numeral.isDigit base c then
      if Numeral.isDigit base d then prepend c (readFigures base (d :: rest))
      else some ([c], '_' :: d :: rest)
    else none
  | c :: d :: rest =>
    if Numeral.isDigit base c then
      if Numeral.isDigit base d then prepend c (readFigures base (d :: rest))
      else some ([c], d :: rest)
    else none
  | [c] => if Numeral.isDigit base c then some ([c], []) else none
  | [] => none

def readWhole : Reader (List Char)
  | '0' :: rest => some (['0'], rest)
  | cs => readFigures 10 cs

def isNegative : List Char → Bool
  | '-' :: _ => true
  | _ => false

def integerOf? (negative : Bool) (magnitude : Nat) : Option Value :=
  let value : Int := if negative then -magnitude else magnitude
  if minId ≤ value ∧ value ≤ maxId then some (.integer value) else none

def readRadix (base : Nat) (cs : List Char) : Option (Value × List Char) := do
  let (figures, rest) ← readFigures base cs
  let magnitude ← Numeral.value? base figures
  let value ← integerOf? false magnitude
  return (value, rest)

def readDecimal (cs : List Char) : Option (Value × List Char) := do
  let (figures, rest) ← readWhole (skipSign cs)
  let magnitude ← Numeral.value? 10 figures
  let value ← integerOf? (isNegative cs) magnitude
  return (value, rest)

def readInteger : Reader Value
  | '0' :: 'x' :: rest => readRadix 16 rest
  | '0' :: 'o' :: rest => readRadix 8 rest
  | '0' :: 'b' :: rest => readRadix 2 rest
  | cs => readDecimal cs

/-! Numbers with a fraction or an exponent. Their value is not kept, but one that
is too large to be told from infinity is refused. -/

def readExponent : Reader Int
  | c :: cs =>
    if c = 'e' ∨ c = 'E' then do
      let (figures, rest) ← readFigures 10 (skipSign cs)
      let magnitude ← Numeral.value? 10 figures
      return (if isNegative cs then -magnitude else magnitude, rest)
    else none
  | [] => none

def readFraction : Reader (List Char)
  | '.' :: cs => readFigures 10 cs
  | _ => none

def readScale (cs : List Char) : Option ((List Char × Int) × List Char) :=
  match readFraction cs with
  | some (fraction, rest) =>
    match readExponent rest with
    | some (exponent, rest) => some ((fraction, exponent), rest)
    | none => some ((fraction, 0), rest)
  | none => (readExponent cs).map fun (exponent, rest) => (([], exponent), rest)

/-- The least number that rounds to infinity: the largest finite number of 64
bits and half of the distance to the one before it. -/
def overflowBound : Nat := Nat.pow 2 1024 - Nat.pow 2 970

/-- Whether `digits` times ten to the `exponent` rounds to infinity. Where the
number of digits settles it no large power is computed. -/
def overflows (digits : List Char) (exponent : Int) : Bool :=
  match Numeral.value? 10 digits with
  | none => false
  | some mantissa =>
    let length : Int := (Numeral.decimal mantissa).length
    if mantissa = 0 then false
    else if 310 < length + exponent then true
    else if length + exponent < 309 then false
    else overflowBound * Nat.pow 10 (-exponent).toNat ≤ mantissa * Nat.pow 10 exponent.toNat

def readDecimalFloat (cs : List Char) : Option (Value × List Char) := do
  let (whole, rest) ← readWhole (skipSign cs)
  let ((fraction, exponent), rest) ← readScale rest
  if !isNegative cs && overflows (whole ++ fraction) (exponent - fraction.length) then none
  else return (.float, rest)

def readSpecialFloat : Reader Value
  | 'i' :: 'n' :: 'f' :: rest => some (.float, rest)
  | 'n' :: 'a' :: 'n' :: rest => some (.float, rest)
  | _ => none

def readFloat (cs : List Char) : Option (Value × List Char) :=
  readDecimalFloat cs <|> readSpecialFloat (skipSign cs)

def readBoolean : Reader Value
  | 't' :: 'r' :: 'u' :: 'e' :: rest => some (.boolean true, rest)
  | 'f' :: 'a' :: 'l' :: 's' :: 'e' :: rest => some (.boolean false, rest)
  | _ => none

/-! Dates and times. -/

def readCount (digits : Nat) (cs : List Char) : Option (Nat × List Char) :=
  match Numeral.value? 10 (cs.take digits) with
  | some n => if (cs.take digits).length = digits then some (n, cs.drop digits) else none
  | none => none

def readMark (mark : Char) : List Char → Option (List Char)
  | c :: cs => if c = mark then some cs else none
  | [] => none

def readTwo (low high : Nat) (cs : List Char) : Option (Nat × List Char) :=
  match readCount 2 cs with
  | some (n, rest) => if low ≤ n ∧ n ≤ high then some (n, rest) else none
  | none => none

def readDate (cs : List Char) : Option (Calendar.Date × List Char) := do
  let (year, cs) ← readCount 4 cs
  let cs ← readMark '-' cs
  let (month, cs) ← readTwo 1 12 cs
  let cs ← readMark '-' cs
  let (day, cs) ← readTwo 1 (Calendar.daysInMonth year month) cs
  return (⟨year, month, day⟩, cs)

/-- A fraction of a second, to nine places and without zeros at its end. -/
def fractionChars (digits : List Char) : List Char :=
  match ((digits.take 9).reverse.dropWhile (· = '0')).reverse with
  | [] => []
  | digits => '.' :: digits

def readSecondFraction : List Char → List Char × List Char
  | '.' :: cs =>
    match cs.takeWhile (Numeral.isDigit 10) with
    | [] => ([], '.' :: cs)
    | digits => (fractionChars digits, cs.dropWhile (Numeral.isDigit 10))
  | cs => ([], cs)

/-- A time of the day, in its shortest spelling. A minute may end in a leap
second. -/
def readTime (cs : List Char) : Option (List Char × List Char) := do
  let (hour, cs) ← readTwo 0 23 cs
  let cs ← readMark ':' cs
  let (minute, cs) ← readTwo 0 59 cs
  let cs ← readMark ':' cs
  let (second, cs) ← readTwo 0 60 cs
  let (fraction, cs) := readSecondFraction cs
  let clock := Calendar.twoDigits hour ++ ':' :: Calendar.twoDigits minute ++
    ':' :: Calendar.twoDigits second
  return (clock ++ fraction, cs)

def readOffset : Reader (List Char)
  | sign :: cs =>
    if sign = 'Z' ∨ sign = 'z' then some (['Z'], cs)
    else if sign = '+' ∨ sign = '-' then do
      let (hours, cs) ← readTwo 0 23 cs
      let cs ← readMark ':' cs
      let (minutes, cs) ← readTwo 0 59 cs
      let sign := if hours = 0 ∧ minutes = 0 then '+' else sign
      return (sign :: Calendar.twoDigits hours ++ ':' :: Calendar.twoDigits minutes, cs)
    else none
  | [] => none

def readTimeOfDate : Reader (List Char)
  | c :: cs =>
    if c = 'T' ∨ c = 't' ∨ c = ' ' then do
      let (time, cs) ← readTime cs
      match readOffset cs with
      | some (offset, cs) => return ('T' :: time ++ offset, cs)
      | none => return ('T' :: time, cs)
    else none
  | [] => none

def readDateTime (cs : List Char) : Option (Value × List Char) :=
  match readDate cs with
  | some (date, cs) =>
    let (time, cs) := (readTimeOfDate cs).getD ([], cs)
    some (.dateTime (String.ofList (date.chars ++ time)), cs)
  | none => (readTime cs).map fun (time, cs) => (.dateTime (String.ofList time), cs)

/-- A value that holds no others. What starts like a date or a time is one, and
of the numbers those with a fraction or an exponent come first. -/
def readScalar (cs : List Char) : Option (Value × List Char) :=
  (readString cs).map (fun (s, rest) => (.string (String.ofList s), rest))
    <|> readBoolean cs
    <|> readDateTime cs
    <|> readFloat cs
    <|> readInteger cs

end ConnectionLog.Toml
