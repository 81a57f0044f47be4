import ConnectionLog.Proofs.Calendar.Days
import ConnectionLog.Proofs.Text.Figures
import Mathlib.Data.String.Basic

/-!
Moments read back from their texts. A year from 0 to 9999 is read from four figures and any
other needs its sign; all that follows has two figures. The text of a valid moment is read
back as that moment, and texts with years of four figures are sorted like their moments.
-/
namespace ConnectionLog.Calendar

def figures? (width : Nat) (cs : List Char) : Option Nat :=
  if cs.length = width then Numeral.value? 10 cs else none

def year? : List Char → Option Int
  | '+' :: cs => ((Numeral.value? 10 cs).filter (9999 < ·)).map fun n : Nat => (n : Int)
  | cs => (figures? 4 cs).map fun n : Nat => (n : Int)

def yearBelowZero? (cs : List Char) : Option Int :=
  if 4 ≤ cs.length then
    ((Numeral.value? 10 cs).filter (0 < ·)).map fun n : Nat => -(n : Int)
  else none

def Date.ofPieces? (year : Option Int) (month day : List Char) : Option Date := do
  return ⟨← year, ← figures? 2 month, ← figures? 2 day⟩

/-- A minus sign in front leaves nothing before the first of the dashes. -/
def Date.ofChars? (cs : List Char) : Option Date :=
  match cs.splitOn '-' with
  | [year, month, day] => ofPieces? (year? year) month day
  | [[], year, month, day] => ofPieces? (yearBelowZero? year) month day
  | _ => none

namespace Moment

def ofPieces? (date : Option Date) (hour minute second : List Char) : Option Moment := do
  return ⟨← date, ← figures? 2 hour, ← figures? 2 minute, ← figures? 2 second⟩

def ofChars? (cs : List Char) : Option Moment :=
  match cs.splitOn ' ' with
  | [date, clock] =>
    match clock.splitOn ':' with
    | [hour, minute, second] => ofPieces? (Date.ofChars? date) hour minute second
    | _ => none
  | _ => none

def ofText? (text : String) : Option Moment := ofChars? text.toList

end Moment

theorem twoDigits_lt_iff (n n' : Nat) (h : n < 100) (h' : n' < 100) :
    twoDigits n < twoDigits n' ↔ n < n' :=
  Numeral.padded_lt_iff 2 n n' (by decide) h h'

theorem length_twoDigits (n : Nat) (h : n < 100) : (twoDigits n).length = 2 :=
  Numeral.length_padded 2 n (by decide) h

theorem twoDigits_inj (n n' : Nat) : twoDigits n = twoDigits n' ↔ n = n' :=
  Numeral.padded_inj 2 n n'

theorem figures?_twoDigits (n : Nat) (h : n < 100) : figures? 2 (twoDigits n) = some n := by
  rw [figures?, if_pos (length_twoDigits n h)]
  exact Numeral.value?_padded 2 n

theorem daysInMonth_le (year : Int) (month : Nat) : daysInMonth year month ≤ 31 := by
  unfold daysInMonth
  split_ifs <;> decide

theorem not_mem_twoDigits (n : Nat) (c : Char) (hc : Numeral.isDigit 10 c = false) :
    c ∉ twoDigits n :=
  Numeral.not_mem_padded 2 n c hc

/-- The years by their sign. -/
theorem yearChars_cases (year : Int) :
    (year < 0 ∧ yearChars year = '-' :: Numeral.padded 4 (Numeral.decimal year.natAbs)) ∨
    (9999 < year ∧ yearChars year = '+' :: Numeral.padded 4 (Numeral.decimal year.natAbs)) ∨
    (0 ≤ year ∧ year ≤ 9999 ∧
      yearChars year = Numeral.padded 4 (Numeral.decimal year.natAbs)) := by
  unfold yearChars
  simp only
  split_ifs with hneg hlarge
  · exact .inl ⟨hneg, rfl⟩
  · exact .inr (.inl ⟨hlarge, rfl⟩)
  · exact .inr (.inr ⟨by omega, by omega, rfl⟩)

theorem not_mem_yearChars (year : Int) (c : Char) (hc : Numeral.isDigit 10 c = false)
    (hminus : c ≠ '-') (hplus : c ≠ '+') : c ∉ yearChars year := by
  have hfigures := Numeral.not_mem_padded 4 year.natAbs c hc
  rcases yearChars_cases year with ⟨-, h⟩ | ⟨-, h⟩ | ⟨-, -, h⟩
  · rw [h]
    exact List.not_mem_cons_of_ne_of_not_mem hminus hfigures
  · rw [h]
    exact List.not_mem_cons_of_ne_of_not_mem hplus hfigures
  · rwa [h]

theorem year?_of_not_mem (cs : List Char) (h : '+' ∉ cs) :
    year? cs = (figures? 4 cs).map fun n : Nat => (n : Int) := by
  unfold year?
  split
  · exact absurd List.mem_cons_self h
  · rfl

/-- A year that is not negative is read back from its figures. -/
theorem year?_yearChars (year : Int) (h : 0 ≤ year) : year? (yearChars year) = some year := by
  have hnat : (year.natAbs : Int) = year := by omega
  rcases yearChars_cases year with ⟨hneg, -⟩ | ⟨hlarge, hchars⟩ | ⟨-, hsmall, hchars⟩
  · omega
  · have hfilter : 9999 < year.natAbs := by omega
    simp only [hchars, year?, Numeral.value?_padded, Option.filter_some, decide_eq_true hfilter,
      if_true, Option.map_some, hnat]
  · have hlength := Numeral.length_padded 4 year.natAbs (by decide) (by omega)
    rw [hchars, year?_of_not_mem _ (Numeral.not_mem_padded 4 _ '+' rfl), figures?,
      if_pos hlength, Numeral.value?_padded, Option.map_some, hnat]

theorem yearBelowZero?_padded (year : Int) (h : year < 0) :
    yearBelowZero? (Numeral.padded 4 (Numeral.decimal year.natAbs)) = some year := by
  have hnat : -(year.natAbs : Int) = year := by omega
  have hlength : 4 ≤ (Numeral.padded 4 (Numeral.decimal year.natAbs)).length := by
    rw [Numeral.padded, List.length_append, List.length_replicate]
    omega
  have hfilter : 0 < year.natAbs := by omega
  simp only [yearBelowZero?, hlength, if_true, Numeral.value?_padded, Option.filter_some,
    decide_eq_true hfilter, Option.map_some, hnat]

namespace Date

theorem splitOn_chars (d : Date) :
    d.chars.splitOn '-' =
      (yearChars d.year).splitOn '-' ++ [twoDigits d.month, twoDigits d.day] := by
  rw [chars, List.append_assoc, List.cons_append, List.splitOn_append_cons_self,
    List.splitOn_append_cons_self, List.splitOn_eq_singleton (not_mem_twoDigits _ '-' rfl),
    List.splitOn_eq_singleton (not_mem_twoDigits _ '-' rfl), List.singleton_append]

theorem ofPieces?_twoDigits (d : Date) (h : d.IsValid) :
    ofPieces? (some d.year) (twoDigits d.month) (twoDigits d.day) = some d := by
  obtain ⟨-, hmonth⟩ := h.month
  obtain ⟨-, hday⟩ := h.day
  have hlast := daysInMonth_le d.year d.month
  rw [ofPieces?, figures?_twoDigits d.month (by omega), figures?_twoDigits d.day (by omega)]
  rfl

/-- A date is read back from its text. -/
theorem ofChars?_chars (d : Date) (h : d.IsValid) : ofChars? d.chars = some d := by
  have hpieces := d.ofPieces?_twoDigits h
  have hfigures := Numeral.not_mem_padded 4 d.year.natAbs '-' rfl
  rw [ofChars?, splitOn_chars]
  rcases yearChars_cases d.year with ⟨hneg, hchars⟩ | ⟨hlarge, hchars⟩ | ⟨hpos, -, hchars⟩
  · have hsign := List.splitOn_append_cons_self (a := '-') []
      (Numeral.padded 4 (Numeral.decimal d.year.natAbs))
    rw [List.splitOn_eq_singleton hfigures, List.splitOn_nil, List.nil_append] at hsign
    rw [hchars, hsign]
    simp only [List.cons_append, List.nil_append, yearBelowZero?_padded d.year hneg, hpieces]
  · have hdash : '-' ∉ yearChars d.year := by
      rw [hchars]
      exact List.not_mem_cons_of_ne_of_not_mem (by decide) hfigures
    rw [List.splitOn_eq_singleton hdash]
    simp only [List.singleton_append, year?_yearChars d.year (by omega), hpieces]
  · have hdash : '-' ∉ yearChars d.year := by rwa [hchars]
    rw [List.splitOn_eq_singleton hdash]
    simp only [List.singleton_append, year?_yearChars d.year (by omega), hpieces]

theorem not_mem_chars (d : Date) (c : Char) (hc : Numeral.isDigit 10 c = false)
    (hminus : c ≠ '-') (hplus : c ≠ '+') : c ∉ d.chars := by
  have hyear := not_mem_yearChars d.year c hc hminus hplus
  have hmonth := not_mem_twoDigits d.month c hc
  have hday := not_mem_twoDigits d.day c hc
  simp only [chars, List.mem_append, List.mem_cons, hyear, hmonth, hday, hminus, or_self,
    not_false_eq_true]

def IsPlain (d : Date) : Prop := 0 ≤ d.year ∧ d.year ≤ 9999

theorem yearChars_of_isPlain (d : Date) (h : d.IsPlain) :
    yearChars d.year = Numeral.padded 4 (Numeral.decimal d.year.natAbs) := by
  obtain ⟨hlow, hhigh⟩ := h
  rcases yearChars_cases d.year with ⟨hneg, -⟩ | ⟨hlarge, -⟩ | ⟨-, -, hchars⟩
  · omega
  · omega
  · exact hchars

theorem length_chars (d : Date) (h : d.IsValid) (hplain : d.IsPlain) : d.chars.length = 10 := by
  obtain ⟨hlow, hhigh⟩ := hplain
  obtain ⟨-, hmonth⟩ := h.month
  obtain ⟨-, hday⟩ := h.day
  have hlast := daysInMonth_le d.year d.month
  rw [chars, d.yearChars_of_isPlain ⟨hlow, hhigh⟩]
  simp only [List.length_append, List.length_cons, length_twoDigits d.month (by omega),
    length_twoDigits d.day (by omega), Numeral.length_padded 4 d.year.natAbs (by decide) (by omega)]

/-- Texts of years of four figures stand in the order of their dates. -/
theorem chars_lt_iff (d d' : Date) (h : d.IsValid) (h' : d'.IsValid) (hplain : d.IsPlain)
    (hplain' : d'.IsPlain) : d.chars < d'.chars ↔ d.Precedes d' := by
  obtain ⟨hlow, hhigh⟩ := hplain
  obtain ⟨hlow', hhigh'⟩ := hplain'
  obtain ⟨-, hmonth⟩ := h.month
  obtain ⟨-, hmonth'⟩ := h'.month
  obtain ⟨-, hday⟩ := h.day
  obtain ⟨-, hday'⟩ := h'.day
  have hlast := daysInMonth_le d.year d.month
  have hlast' := daysInMonth_le d'.year d'.month
  have hyears := (Numeral.length_padded 4 d.year.natAbs (by decide) (by omega)).trans
    (Numeral.length_padded 4 d'.year.natAbs (by decide) (by omega)).symm
  have hmonths := (length_twoDigits d.month (by omega)).trans
    (length_twoDigits d'.month (by omega)).symm
  rw [chars, chars, d.yearChars_of_isPlain ⟨hlow, hhigh⟩, d'.yearChars_of_isPlain ⟨hlow', hhigh'⟩,
    List.append_assoc, List.append_assoc, append_lt_append_iff _ _ _ _ hyears,
    Numeral.padded_lt_iff 4 _ _ (by decide) (by omega) (by omega), Numeral.padded_inj]
  simp only [List.cons_append, List.cons_lt_cons_self, append_lt_append_iff _ _ _ _ hmonths,
    twoDigits_lt_iff d.month d'.month (by omega) (by omega), twoDigits_inj,
    twoDigits_lt_iff d.day d'.day (by omega) (by omega), Precedes]
  omega

/-- Different dates have different texts. -/
theorem chars_inj (d d' : Date) (h : d.IsValid) (h' : d'.IsValid) :
    d.chars = d'.chars ↔ d = d' := by
  constructor
  · intro hchars
    have hread := d.ofChars?_chars h
    rw [hchars, d'.ofChars?_chars h'] at hread
    exact (Option.some.inj hread).symm
  · exact congrArg chars

end Date

namespace Moment

theorem splitOn_clockChars (m : Moment) :
    m.clockChars.splitOn ':' = [twoDigits m.hour, twoDigits m.minute, twoDigits m.second] := by
  rw [clockChars, List.append_assoc, List.cons_append, List.splitOn_append_cons_self,
    List.splitOn_append_cons_self, List.splitOn_eq_singleton (not_mem_twoDigits _ ':' rfl),
    List.splitOn_eq_singleton (not_mem_twoDigits _ ':' rfl),
    List.splitOn_eq_singleton (not_mem_twoDigits _ ':' rfl)]
  rfl

theorem splitOn_chars (m : Moment) : (m.chars ' ').splitOn ' ' = [m.date.chars, m.clockChars] := by
  have hdate := m.date.not_mem_chars ' ' rfl (by decide) (by decide)
  have hclock : ' ' ∉ m.clockChars := by
    simp [clockChars, not_mem_twoDigits _ ' ' rfl]
  rw [chars, List.splitOn_append_cons_self, List.splitOn_eq_singleton hdate,
    List.splitOn_eq_singleton hclock, List.singleton_append]

/-- The text of a valid moment is read back as that moment. -/
theorem ofText?_text (m : Moment) (h : m.IsValid) : ofText? m.text = some m := by
  obtain ⟨hdate, hhour, hminute, hsecond⟩ := h
  rw [ofText?, text, String.toList_ofList, ofChars?, splitOn_chars]
  simp only [splitOn_clockChars, ofPieces?, m.date.ofChars?_chars hdate,
    figures?_twoDigits m.hour (by omega), figures?_twoDigits m.minute (by omega),
    figures?_twoDigits m.second (by omega)]
  rfl

theorem clockChars_lt_iff (m m' : Moment) (h : m.IsValid) (h' : m'.IsValid) :
    m.clockChars < m'.clockChars ↔ m.hour < m'.hour ∨ m.hour = m'.hour ∧
      (m.minute < m'.minute ∨ m.minute = m'.minute ∧ m.second < m'.second) := by
  obtain ⟨-, hhour, hminute, hsecond⟩ := h
  obtain ⟨-, hhour', hminute', hsecond'⟩ := h'
  have hhours := (length_twoDigits m.hour (by omega)).trans
    (length_twoDigits m'.hour (by omega)).symm
  have hminutes := (length_twoDigits m.minute (by omega)).trans
    (length_twoDigits m'.minute (by omega)).symm
  simp only [clockChars, List.append_assoc, List.cons_append, List.cons_lt_cons_self,
    append_lt_append_iff _ _ _ _ hhours, append_lt_append_iff _ _ _ _ hminutes, twoDigits_inj,
    twoDigits_lt_iff m.hour m'.hour (by omega) (by omega),
    twoDigits_lt_iff m.minute m'.minute (by omega) (by omega),
    twoDigits_lt_iff m.second m'.second (by omega) (by omega)]

/-- While their years have four figures, texts are sorted like the moments. -/
theorem text_lt_iff (m m' : Moment) (h : m.IsValid) (h' : m'.IsValid) (hplain : m.date.IsPlain)
    (hplain' : m'.date.IsPlain) : m.text < m'.text ↔ m.seconds < m'.seconds := by
  have hdates := (m.date.length_chars h.date hplain).trans
    (m'.date.length_chars h'.date hplain').symm
  rw [seconds_lt_iff m m' h h', String.lt_iff_toList_lt, text, text, String.toList_ofList,
    String.toList_ofList, chars, chars, append_lt_append_iff _ _ _ _ hdates,
    List.cons_lt_cons_self, m.date.chars_lt_iff m'.date h.date h'.date hplain hplain',
    m.date.chars_inj m'.date h.date h'.date, clockChars_lt_iff m m' h h']
  exact Iff.rfl

end Moment

end ConnectionLog.Calendar
