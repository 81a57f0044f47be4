import ConnectionLog.Numeral

/-!
The Gregorian calendar, extended to all years, and moments in universal time
given in seconds from the start of 1970.

Days are grouped from the first of March of the year 0: an era is 400 years, a
century a quarter of it but for the last day, a cycle four years, and months run
from March to February, so that a leap day is always the last day of a group.
-/
namespace ConnectionLog.Calendar

structure Date where
  year : Int
  month : Nat
  day : Nat
deriving DecidableEq

structure Moment where
  date : Date
  hour : Nat
  minute : Nat
  second : Nat
deriving DecidableEq

def isLeap (year : Int) : Bool :=
  year % 4 = 0 && (year % 100 ≠ 0 || year % 400 = 0)

def daysInMonth (year : Int) (month : Nat) : Nat :=
  if month = 2 then (if isLeap year then 29 else 28)
  else if month = 4 ∨ month = 6 ∨ month = 9 ∨ month = 11 then 30
  else 31

/-- The first of January 1970 comes this many days after the first of March of
the year 0. -/
def epochOffset : Int := 719468

/-- The year of an era and the day of that year, both from zero, of a day of the
era. The last day of a century or cycle belongs to its last part. -/
def splitEra (day : Nat) : Nat × Nat :=
  let century := min (day / 36524) 3
  let inCentury := day - century * 36524
  let cycle := inCentury / 1461
  let inCycle := inCentury - cycle * 1461
  let year := min (inCycle / 365) 3
  (century * 100 + cycle * 4 + year, inCycle - year * 365)

/-- The month and day of a day of a year that starts in March: of five months
from March on 153 days are shared out as 31, 30, 31, 30, 31. -/
def splitYear (day : Nat) : Nat × Nat :=
  let month := (5 * day + 2) / 153
  (month, day - (153 * month + 2) / 5 + 1)

def Date.ofDays (days : Int) : Date :=
  let shifted := days + epochOffset
  let era := shifted / 146097
  let (year, dayOfYear) := splitEra (shifted % 146097).toNat
  let (month, day) := splitYear dayOfYear
  let start := era * 400 + year
  if month < 10 then ⟨start, month + 3, day⟩ else ⟨start + 1, month - 9, day⟩

/-- The moments a log can show; they run from the year -262143 to 262142. -/
def firstSecond : Int := -8334601228800

def lastSecond : Int := 8210266876799

def Moment.ofSeconds? (seconds : Int) : Option Moment :=
  if firstSecond ≤ seconds ∧ seconds ≤ lastSecond then
    let inDay := (seconds % 86400).toNat
    some ⟨Date.ofDays (seconds / 86400), inDay / 3600, inDay / 60 % 60, inDay % 60⟩
  else none

def twoDigits (n : Nat) : List Char := Numeral.padded 2 (Numeral.decimal n)

/-- Years have at least four digits, and a sign outside 0 to 9999. -/
def yearChars (year : Int) : List Char :=
  let figures := Numeral.padded 4 (Numeral.decimal year.natAbs)
  if year < 0 then '-' :: figures
  else if 9999 < year then '+' :: figures
  else figures

def Date.chars (d : Date) : List Char :=
  yearChars d.year ++ '-' :: twoDigits d.month ++ '-' :: twoDigits d.day

def Moment.clockChars (m : Moment) : List Char :=
  twoDigits m.hour ++ ':' :: twoDigits m.minute ++ ':' :: twoDigits m.second

def Moment.chars (sep : Char) (m : Moment) : List Char :=
  m.date.chars ++ sep :: m.clockChars

def Moment.text (m : Moment) : String := String.ofList (m.chars ' ')

def Moment.exchangeText (m : Moment) : String :=
  String.ofList (m.chars 'T' ++ "+00:00".toList)

end ConnectionLog.Calendar
