import ConnectionLog.Calendar
import Mathlib.Algebra.Order.BigOperators.Group.Finset
import Mathlib.Algebra.Order.Ring.Int
import Mathlib.Tactic.IntervalCases

/-!
Days counted one after the other. A date is valid if its month has such a day, and its count
is the number of days between the first of January 1970 and it, added up over the years and
months in between. The date of a day is a valid one that counts that day, and later dates
have larger counts.
-/
namespace ConnectionLog.Calendar

open Finset (range)

def daysInYear (year : Int) : Int := ∑ month ∈ range 12, (daysInMonth year (month + 1) : Int)

/-- The days from the start of 1970 to the start of a year, negative for a year before it. -/
def daysBefore (year : Int) : Int :=
  ∑ i ∈ range (year - 1970).toNat, daysInYear (1970 + i) -
    ∑ i ∈ range (1970 - year).toNat, daysInYear (1969 - i)

namespace Date

structure IsValid (d : Date) : Prop where
  month : 1 ≤ d.month ∧ d.month ≤ 12
  day : 1 ≤ d.day ∧ d.day ≤ daysInMonth d.year d.month

def daysBeforeMonth (year : Int) (month : Nat) : Int :=
  ∑ m ∈ range (month - 1), (daysInMonth year (m + 1) : Int)

def count (d : Date) : Int :=
  daysBefore d.year + daysBeforeMonth d.year d.month + (d.day - 1)

end Date

theorem isLeap_iff (year : Int) :
    isLeap year = true ↔ year % 4 = 0 ∧ (year % 100 ≠ 0 ∨ year % 400 = 0) := by
  simp only [isLeap, Bool.and_eq_true, Bool.or_eq_true, decide_eq_true_eq]

/-- The leap days up to the end of a year, counted from the year 0. -/
def leaps (year : Int) : Int := year / 4 - year / 100 + year / 400

theorem daysInMonth_february (year : Int) :
    (daysInMonth year 2 : Int) = 28 + (leaps year - leaps (year - 1)) := by
  unfold daysInMonth leaps
  rw [if_pos rfl]
  split_ifs with hleap
  · rw [isLeap_iff] at hleap
    omega
  · rw [isLeap_iff] at hleap
    omega

/-- A year has 365 days, and one more if a leap day falls into it. -/
theorem daysInYear_eq (year : Int) : daysInYear year = 365 + (leaps year - leaps (year - 1)) := by
  have hfebruary := daysInMonth_february year
  simp only [daysInYear, Finset.sum_range_succ, Finset.sum_range_zero]
  change (0 : Int) + 31 + daysInMonth year 2 + 31 + 30 + 31 + 30 + 31 + 31 + 30 + 31 + 30 + 31 = _
  omega

theorem daysBefore_succ (year : Int) :
    daysBefore (year + 1) = daysBefore year + daysInYear year := by
  unfold daysBefore
  rcases le_or_gt 1970 year with hge | hlt
  · have hnext : (year + 1 - 1970).toNat = (year - 1970).toNat + 1 := by omega
    have hnone : (1970 - (year + 1)).toNat = 0 := by omega
    have hnone' : (1970 - year).toNat = 0 := by omega
    have hyear : 1970 + ((year - 1970).toNat : Int) = year := by omega
    rw [hnext, hnone, hnone', Finset.sum_range_succ, hyear, Finset.sum_range_zero]
    omega
  · have hnone : (year + 1 - 1970).toNat = 0 := by omega
    have hnone' : (year - 1970).toNat = 0 := by omega
    have hnext : (1970 - year).toNat = (1970 - (year + 1)).toNat + 1 := by omega
    have hyear : 1969 - ((1970 - (year + 1)).toNat : Int) = year := by omega
    rw [hnone, hnone', hnext, Finset.sum_range_succ, hyear, Finset.sum_range_zero]
    omega

/-- Every year has 365 days but for the leap days. -/
theorem daysBefore_eq (year : Int) : daysBefore year = 365 * year + leaps (year - 1) - 719527 := by
  induction year using Int.inductionOn' (b := 1970) with
  | zero => rfl
  | succ year _ ih =>
    rw [daysBefore_succ, ih, daysInYear_eq, Int.add_sub_cancel]
    omega
  | pred year _ ih =>
    have hstep := daysBefore_succ (year - 1)
    rw [Int.sub_add_cancel, ih, daysInYear_eq] at hstep
    omega

theorem daysBeforeMonth_succ (year : Int) (month : Nat) (hmonth : 1 ≤ month) :
    Date.daysBeforeMonth year (month + 1) =
      Date.daysBeforeMonth year month + daysInMonth year month := by
  obtain ⟨m, rfl⟩ : ∃ m, month = m + 1 := ⟨month - 1, by omega⟩
  exact Finset.sum_range_succ _ m

/-- From March on five months have 153 days. -/
theorem daysInMonth_eq (year : Int) (m : Nat) (h : m < 10) :
    daysInMonth year (m + 3) = (153 * (m + 1) + 2) / 5 - (153 * m + 2) / 5 := by
  interval_cases m <;> rfl

theorem daysBeforeMonth_eq (year : Int) (m : Nat) (h : m < 10) :
    Date.daysBeforeMonth year (m + 3) =
      59 + (leaps year - leaps (year - 1)) + ((153 * m + 2) / 5 : Nat) := by
  induction m with
  | zero =>
    have hfebruary := daysInMonth_february year
    have hmarch : Date.daysBeforeMonth year (0 + 3) = 0 + 31 + daysInMonth year 2 := rfl
    omega
  | succ m ih =>
    have hdays := daysInMonth_eq year m (by omega)
    have hstep := daysBeforeMonth_succ year (m + 3) (by omega)
    rw [ih (by omega)] at hstep
    rw [Nat.add_right_comm, hstep]
    omega

/-- A day of an era is one of a year of it, and only a year that ends in a leap day has a
366th day. -/
theorem splitEra_spec (day : Nat) (h : day < 146097) :
    ∃ year dayOfYear, splitEra day = (year, dayOfYear) ∧ year < 400 ∧ dayOfYear ≤ 365 ∧
      day + year / 100 = 365 * year + year / 4 + dayOfYear ∧
      (dayOfYear = 365 → (year + 1) % 4 = 0 ∧ ((year + 1) % 100 ≠ 0 ∨ year + 1 = 400)) := by
  refine ⟨_, _, rfl, ?_⟩
  generalize hcentury : min (day / 36524) 3 = century
  generalize hinCentury : day - century * 36524 = inCentury
  generalize hcycle : inCentury / 1461 = cycle
  generalize hinCycle : inCentury - cycle * 1461 = inCycle
  generalize hyear : min (inCycle / 365) 3 = year
  have hcenturies : century ≤ 3 ∧ day = century * 36524 + inCentury ∧ inCentury ≤ 36524 ∧
      (inCentury = 36524 → century = 3) := by omega
  have hcycles : cycle ≤ 24 ∧ inCentury = cycle * 1461 + inCycle ∧ inCycle ≤ 1460 := by omega
  have hyears : year ≤ 3 ∧ year * 365 ≤ inCycle ∧ inCycle - year * 365 ≤ 365 ∧
      (inCycle - year * 365 = 365 → year = 3) := by omega
  have hhundreds : (century * 100 + cycle * 4 + year) / 100 = century := by omega
  have hfours : (century * 100 + cycle * 4 + year) / 4 = century * 25 + cycle := by omega
  refine ⟨by omega, by omega, by omega, fun hlast => ⟨by omega, ?_⟩⟩
  by_cases hend : cycle = 24
  · exact .inr (by omega)
  · exact .inl (by omega)

/-- So many days of the year come before the month that is found, and fewer than before the next. -/
theorem splitYear_spec (day : Nat) (h : day ≤ 365) :
    ∃ month dayOfMonth, splitYear day = (month, dayOfMonth) ∧ month ≤ 11 ∧ 1 ≤ dayOfMonth ∧
      day + 1 = (153 * month + 2) / 5 + dayOfMonth ∧ day < (153 * (month + 1) + 2) / 5 := by
  refine ⟨_, _, rfl, ?_⟩
  omega

namespace Date

/-- Each cycle of four hundred years has 97 leap days. -/
theorem leaps_era (era : Int) (year : Nat) (h : year < 400) :
    leaps (era * 400 + year) = era * 97 + (year / 4 : Nat) - (year / 100 : Nat) := by
  have hfours : (era * 400 + year) / 4 = era * 100 + (year / 4 : Nat) := by omega
  have hhundreds : (era * 400 + year) / 100 = era * 4 + (year / 100 : Nat) := by omega
  have heras : (era * 400 + year) / 400 = era := by omega
  rw [leaps, hfours, hhundreds, heras]
  omega

/-- The date of a day of the year that starts with a given March. -/
theorem ofMarch_spec (year : Int) (month day : Nat) (hmonth : month ≤ 11) (hpos : 1 ≤ day)
    (hday : (153 * month + 2) / 5 + day ≤ (153 * (month + 1) + 2) / 5)
    (hlast : ((153 * month + 2) / 5 + day : Nat) ≤ 365 + (leaps (year + 1) - leaps year))
    (d : Date)
    (hd : d = if month < 10 then ⟨year, month + 3, day⟩ else ⟨year + 1, month - 9, day⟩) :
    d.IsValid ∧
      d.count = 365 * year + leaps year - 719468 + ((153 * month + 2) / 5 : Nat) + (day - 1) := by
  by_cases hlow : month < 10
  · rw [if_pos hlow] at hd
    subst hd
    have hdays := daysInMonth_eq year month hlow
    have hbefore := daysBeforeMonth_eq year month hlow
    refine ⟨⟨by simp only; omega, by simp only; omega⟩, ?_⟩
    simp only [count, daysBefore_eq, hbefore]
    omega
  · rw [if_neg hlow] at hd
    subst hd
    obtain rfl | rfl : month = 10 ∨ month = 11 := by omega
    · have hdays : daysInMonth (year + 1) (10 - 9) = 31 := rfl
      have hbefore : daysBeforeMonth (year + 1) (10 - 9) = 0 := rfl
      refine ⟨⟨by simp only; omega, by simp only; omega⟩, ?_⟩
      simp only [count, daysBefore_eq, Int.add_sub_cancel]
      omega
    · have hdays := daysInMonth_february (year + 1)
      have hbefore : daysBeforeMonth (year + 1) (11 - 9) = 0 + 31 := rfl
      rw [Int.add_sub_cancel] at hdays
      refine ⟨⟨by simp only; omega, by simp only [Nat.reduceSub]; omega⟩, ?_⟩
      simp only [count, daysBefore_eq, Int.add_sub_cancel]
      omega

/-- A year of an era has its 366th day only with a leap day at its end. -/
theorem dayOfYear_lt (era : Int) (year dayOfYear : Nat) (hlast : dayOfYear ≤ 365)
    (hleap : dayOfYear = 365 →
      (year + 1) % 4 = 0 ∧ ((year + 1) % 100 ≠ 0 ∨ year + 1 = 400)) :
    (dayOfYear + 1 : Nat) ≤ 365 + (leaps (era * 400 + year + 1) - leaps (era * 400 + year)) := by
  unfold leaps
  omega

/-- Every number of days is that of a date of the calendar. -/
theorem ofDays_spec (days : Int) : (ofDays days).IsValid ∧ (ofDays days).count = days := by
  generalize hera : (days + epochOffset) / 146097 = era
  generalize hday : ((days + epochOffset) % 146097).toNat = dayOfEra
  have hdays : days + epochOffset = era * 146097 + dayOfEra ∧ dayOfEra < 146097 := by omega
  obtain ⟨htotal, hlt⟩ := hdays
  obtain ⟨year, dayOfYear, hsplit, hyear, hlast, hcount, hleap⟩ := splitEra_spec dayOfEra hlt
  obtain ⟨month, day, hsplit', hmonth, hpos, hsum, hend⟩ := splitYear_spec dayOfYear hlast
  have hinYear := dayOfYear_lt era year dayOfYear hlast hleap
  rw [hsum] at hinYear
  obtain ⟨hvalid, hd⟩ := ofMarch_spec (era * 400 + year) month day hmonth hpos (by omega) hinYear
    (ofDays days) (by simp only [ofDays, hera, hday, hsplit, hsplit'])
  refine ⟨hvalid, ?_⟩
  rw [hd, leaps_era era year hyear]
  -- What is left adds up; the quotients behind `era` and `dayOfEra` would only be split again.
  clear hera hday hleap hinYear hd
  unfold epochOffset at htotal
  omega

def Precedes (d d' : Date) : Prop :=
  d.year < d'.year ∨ d.year = d'.year ∧
    (d.month < d'.month ∨ d.month = d'.month ∧ d.day < d'.day)

theorem precedes_or_eq (d d' : Date) : d.Precedes d' ∨ d = d' ∨ d'.Precedes d := by
  obtain ⟨year, month, day⟩ := d
  obtain ⟨year', month', day'⟩ := d'
  simp only [Precedes, mk.injEq]
  omega

theorem daysBeforeMonth_le (year : Int) (month month' : Nat) (hmonth : 1 ≤ month)
    (h : month < month') :
    daysBeforeMonth year month + daysInMonth year month ≤ daysBeforeMonth year month' := by
  induction month', h using Nat.le_induction with
  | base => exact (daysBeforeMonth_succ year month hmonth).ge
  | succ m h ih =>
    rw [daysBeforeMonth_succ year m (by omega)]
    omega

theorem daysBefore_le (year year' : Int) (h : year < year') :
    daysBefore year + daysInYear year ≤ daysBefore year' := by
  rw [daysBefore_eq, daysBefore_eq, daysInYear_eq]
  rcases (show year' = year + 1 ∨ year + 2 ≤ year' by omega) with rfl | hlater
  · rw [Int.add_sub_cancel]
    omega
  · unfold leaps
    omega

/-- A valid date lies in its year. -/
theorem count_lt_year (d : Date) (h : d.IsValid) :
    daysBefore d.year ≤ d.count ∧ d.count < daysBefore d.year + daysInYear d.year := by
  obtain ⟨hmonth, hmonth'⟩ := h.month
  have hmonths := daysBeforeMonth_le d.year d.month 13 hmonth (by omega)
  have hyear : daysBeforeMonth d.year 13 = daysInYear d.year := rfl
  have hpos : 0 ≤ daysBeforeMonth d.year d.month :=
    Finset.sum_nonneg fun m _ => Int.natCast_nonneg _
  obtain ⟨hday, hlast⟩ := h.day
  unfold count
  omega

/-- A later date has more days before it. -/
theorem count_lt (d d' : Date) (h : d.IsValid) (h' : d'.IsValid) (hlt : d.Precedes d') :
    d.count < d'.count := by
  rcases hlt with hyear | ⟨hyear, hmonth | ⟨hmonth, hday⟩⟩
  · have hbefore := (count_lt_year d h).2
    have hafter := (count_lt_year d' h').1
    have hyears := daysBefore_le d.year d'.year hyear
    omega
  · have hmonths := daysBeforeMonth_le d.year d.month d'.month h.month.1 hmonth
    obtain ⟨hfirst, hlast⟩ := h.day
    have hfirst' := h'.day.1
    unfold count
    rw [← hyear]
    omega
  · unfold count
    rw [← hyear, ← hmonth]
    omega

end Date

namespace Moment

structure IsValid (m : Moment) : Prop where
  date : m.date.IsValid
  hour : m.hour < 24
  minute : m.minute < 60
  second : m.second < 60

def seconds (m : Moment) : Int :=
  m.date.count * 86400 + m.hour * 3600 + m.minute * 60 + m.second

/-- The moment of a second is a valid one that counts that second, while there is one. -/
theorem ofSeconds?_spec (seconds : Int) (m : Moment) (h : ofSeconds? seconds = some m) :
    m.IsValid ∧ m.seconds = seconds := by
  rw [ofSeconds?] at h
  split at h
  · cases h
    obtain ⟨hvalid, hcount⟩ := Date.ofDays_spec (seconds / 86400)
    refine ⟨⟨hvalid, ?_, ?_, ?_⟩, ?_⟩
    · simp only
      omega
    · simp only
      omega
    · simp only
      omega
    · simp only [Moment.seconds, hcount]
      omega
  · cases h

/-- There is a moment for just the seconds that a log can show. -/
theorem ofSeconds?_isSome_iff (seconds : Int) :
    (∃ m, ofSeconds? seconds = some m) ↔ firstSecond ≤ seconds ∧ seconds ≤ lastSecond := by
  rw [ofSeconds?]
  split
  · exact iff_of_true ⟨_, rfl⟩ ‹_›
  · exact iff_of_false (fun ⟨m, hm⟩ => nomatch hm) ‹_›

def Precedes (m m' : Moment) : Prop :=
  m.date.Precedes m'.date ∨ m.date = m'.date ∧ (m.hour < m'.hour ∨ m.hour = m'.hour ∧
    (m.minute < m'.minute ∨ m.minute = m'.minute ∧ m.second < m'.second))

theorem precedes_or_eq (m m' : Moment) : m.Precedes m' ∨ m = m' ∨ m'.Precedes m := by
  obtain ⟨date, hour, minute, second⟩ := m
  obtain ⟨date', hour', minute', second'⟩ := m'
  simp only [Precedes, mk.injEq]
  rcases date.precedes_or_eq date' with hdate | rfl | hdate
  · exact .inl (.inl hdate)
  · simp only [true_and]
    omega
  · exact .inr (.inr (.inl hdate))

theorem seconds_lt (m m' : Moment) (h : m.IsValid) (h' : m'.IsValid) (hlt : m.Precedes m') :
    m.seconds < m'.seconds := by
  obtain ⟨hdate, hhour, hminute, hsecond⟩ := h
  unfold seconds
  rcases hlt with hlt | ⟨hsame, hlt⟩
  · have hcount := Date.count_lt m.date m'.date hdate h'.date hlt
    omega
  · rw [← hsame]
    omega

/-- Moments stand in the order of their seconds. -/
theorem seconds_lt_iff (m m' : Moment) (h : m.IsValid) (h' : m'.IsValid) :
    m.seconds < m'.seconds ↔ m.Precedes m' := by
  constructor
  · intro hlt
    rcases m.precedes_or_eq m' with hprecedes | rfl | hfollows
    · exact hprecedes
    · exact absurd hlt (Int.lt_irrefl _)
    · exact absurd hlt (Int.lt_asymm (seconds_lt m' m h' h hfollows))
  · exact seconds_lt m m' h h'

/-- Two valid moments that count the same second are the same. -/
theorem seconds_inj (m m' : Moment) (h : m.IsValid) (h' : m'.IsValid)
    (hsame : m.seconds = m'.seconds) : m = m' := by
  rcases m.precedes_or_eq m' with hprecedes | rfl | hfollows
  · exact absurd hsame (seconds_lt m m' h h' hprecedes).ne
  · rfl
  · exact absurd hsame (seconds_lt m' m h' h hfollows).ne'

end Moment

end ConnectionLog.Calendar
