import ConnectionLog.Proofs.Toml.Strings
import ConnectionLog.Toml.Reader

/-!
Strings, truth values and whole numbers at the end of a line are read as they were
written. A number is the last thing a reader tries: its digits must not pass for a date, a
time or a number with a fraction.
-/
namespace ConnectionLog.Toml

/-- A text that is read as a certain value, up to the end of the line it stands in. -/
def Shows (text : List Char) (value : Value) : Prop :=
  ∀ rest, readValue deepest (skipBlanks (text ++ '\n' :: rest)) = some (value, '\n' :: rest)

theorem skipBlanks_cons (c : Char) (rest : List Char) (hc : isBlank c = false) :
    skipBlanks (c :: rest) = c :: rest :=
  List.dropWhile_cons_of_neg (by simp [hc])

/-- A value that starts with neither a blank nor a bracket holds no others. -/
theorem readValue_scalar (c : Char) (cs : List Char) (hblank : isBlank c = false)
    (harray : c ≠ '[') (htable : c ≠ '\x7b') :
    readValue deepest (skipBlanks (c :: cs)) = readScalar (c :: cs) := by
  rw [skipBlanks_cons c cs hblank]
  change readValue (78 + 1) (c :: cs) = _
  rw [readValue]
  · rintro rest heq
    exact harray (List.cons.inj heq).1
  · rintro rest heq
    exact htable (List.cons.inj heq).1

/-! Strings and truth values. -/

theorem head_writeString (s : String) : ∃ c cs, writeString s = c :: cs ∧ (c = '"' ∨ c = '\'') := by
  unfold writeString
  cases Quoting.choose s.toList with
  | basic => exact ⟨'"', _, rfl, Or.inl rfl⟩
  | literal => exact ⟨'\'', _, rfl, Or.inr rfl⟩
  | basicLines => exact ⟨'"', _, rfl, Or.inl rfl⟩
  | literalLines => exact ⟨'\'', _, rfl, Or.inr rfl⟩

/-- A string that is written is read back as a value. -/
theorem shows_writeString (s : String) : Shows (writeString s) (.string s) := by
  intro rest
  obtain ⟨c, cs, htext, hc⟩ := head_writeString s
  have hread := readString_writeString s ('\n' :: rest) nofun nofun
  rw [htext, List.cons_append] at hread ⊢
  rw [readValue_scalar c (cs ++ '\n' :: rest)]
  · rw [readScalar, hread]
    change some (Value.string (String.ofList s.toList), '\n' :: rest) = _
    rw [String.ofList_toList]
  all_goals
    rcases hc with rfl | rfl
    · decide
    · decide

theorem shows_writeBoolean (b : Bool) : Shows (writeBoolean b) (.boolean b) := by
  intro rest
  cases b with
  | false =>
    change readValue deepest (skipBlanks ('f' :: _)) = _
    rw [readValue_scalar 'f' _ (by decide) (by decide) (by decide)]
    rfl
  | true =>
    change readValue deepest (skipBlanks ('t' :: _)) = _
    rw [readValue_scalar 't' _ (by decide) (by decide) (by decide)]
    rfl

/-! Whole numbers. -/

theorem ne_of_isDigit (c d : Char) (hc : Numeral.isDigit 10 c = true)
    (hd : Numeral.isDigit 10 d = false) : c ≠ d := by
  rintro rfl
  rw [hc] at hd
  exact nomatch hd

section

variable (cs rest : List Char) (hdigits : ∀ c ∈ cs, Numeral.isDigit 10 c = true)

include hdigits

/-- After a count of digits only more of them come before the end of the line. -/
theorem readCount_digits (count n : Nat) (after : List Char)
    (h : readCount count (cs ++ '\n' :: rest) = some (n, after)) :
    ∃ more, after = more ++ '\n' :: rest ∧ ∀ c ∈ more, Numeral.isDigit 10 c = true := by
  have hle : count ≤ cs.length := by
    by_contra hlt
    have hmem : '\n' ∈ (cs ++ '\n' :: rest).take count := by
      rw [List.take_append, List.mem_append]
      right
      rw [List.take_cons (by omega)]
      exact List.mem_cons_self
    rw [readCount, Numeral.value?_eq_none 10 _ '\n' hmem rfl] at h
    exact nomatch h
  refine ⟨cs.drop count, ?_, fun c hc => hdigits c (List.mem_of_mem_drop hc)⟩
  rw [← List.drop_append_of_le_length hle]
  unfold readCount at h
  split at h
  · split at h
    · exact (congrArg Prod.snd (Option.some.inj h)).symm
    · exact nomatch h
  · exact nomatch h

theorem readMark_digits (mark : Char) (hmark : Numeral.isDigit 10 mark = false)
    (hline : mark ≠ '\n') : readMark mark (cs ++ '\n' :: rest) = none := by
  cases cs with
  | nil => exact if_neg hline.symm
  | cons c cs => exact if_neg (ne_of_isDigit c mark (hdigits c List.mem_cons_self) hmark)

theorem readDate_digits : readDate (cs ++ '\n' :: rest) = none := by
  unfold readDate
  cases hyear : readCount 4 (cs ++ '\n' :: rest) with
  | none => rfl
  | some year =>
    obtain ⟨more, hmore, hdigits⟩ := readCount_digits cs rest hdigits 4 year.1 year.2 hyear
    simp only [Option.bind_eq_bind, Option.bind_some, hmore]
    rw [readMark_digits more rest hdigits '-' rfl (by decide)]
    rfl

theorem readTime_digits : readTime (cs ++ '\n' :: rest) = none := by
  unfold readTime readTwo
  cases hhour : readCount 2 (cs ++ '\n' :: rest) with
  | none => rfl
  | some hour =>
    obtain ⟨more, hmore, hdigits⟩ := readCount_digits cs rest hdigits 2 hour.1 hour.2 hhour
    simp only [hmore]
    split
    · simp only [Option.bind_eq_bind, Option.bind_some]
      rw [readMark_digits more rest hdigits ':' rfl (by decide)]
      rfl
    · rfl

theorem readFigures_digits (hne : cs ≠ []) :
    readFigures 10 (cs ++ '\n' :: rest) = some (cs, '\n' :: rest) := by
  induction cs with
  | nil => exact absurd rfl hne
  | cons c cs ih =>
    have hc := hdigits c List.mem_cons_self
    cases cs with
    | nil =>
      change readFigures 10 (c :: '\n' :: rest) = _
      rw [readFigures, if_pos hc]
      · rfl
      · exact fun _ _ heq => absurd heq (by decide)
    | cons d cs =>
      have hd := hdigits d (List.mem_cons_of_mem c List.mem_cons_self)
      have hrest := ih (fun e he => hdigits e (List.mem_cons_of_mem c he)) (List.cons_ne_nil d cs)
      rw [List.cons_append] at hrest
      rw [List.cons_append, List.cons_append, readFigures, if_pos hc, if_pos hd, hrest]
      · rfl
      · exact fun _ _ heq => absurd heq (ne_of_isDigit d '_' hd rfl)

end

theorem isDigit_of_mem_decimal (n : Nat) (c : Char) (hc : c ∈ Numeral.decimal n) :
    Numeral.isDigit 10 c = true :=
  Numeral.isDigit_of_mem_digits 10 n (by decide) (by decide) c hc

theorem readWhole_decimal (n : Nat) (rest : List Char) :
    readWhole (Numeral.decimal n ++ '\n' :: rest) = some (Numeral.decimal n, '\n' :: rest) := by
  by_cases hzero : n = 0
  · rw [hzero, Numeral.decimal_zero]
    rfl
  · have hhead := Numeral.head?_digits 10 n (by decide) (by decide) hzero
    have hfigures := readFigures_digits (Numeral.decimal n) rest (isDigit_of_mem_decimal n)
      (Numeral.digits_ne_nil 10 n)
    rw [readWhole, hfigures]
    rintro after heq
    cases hdecimal : Numeral.decimal n with
    | nil => exact Numeral.digits_ne_nil 10 n hdecimal
    | cons c cs =>
      rw [hdecimal, List.cons_append] at heq
      change (Numeral.decimal n).head? ≠ _ at hhead
      rw [hdecimal, (List.cons.inj heq).1] at hhead
      exact hhead rfl

section

variable (c : Char) (cs : List Char) (hc : Numeral.isDigit 10 c = true)

include hc

theorem readString_digit : readString (c :: cs) = none := by
  have hdouble := ne_of_isDigit c '"' hc rfl
  have hsingle := ne_of_isDigit c '\'' hc rfl
  rw [readString]
  · exact fun _ heq => hdouble (List.cons.inj heq).1
  · exact fun _ heq => hdouble (List.cons.inj heq).1
  · exact fun _ heq => hsingle (List.cons.inj heq).1
  · exact fun _ heq => hsingle (List.cons.inj heq).1

theorem readBoolean_digit : readBoolean (c :: cs) = none := by
  have htrue := ne_of_isDigit c 't' hc rfl
  have hfalse := ne_of_isDigit c 'f' hc rfl
  rw [readBoolean]
  · exact fun _ heq => htrue (List.cons.inj heq).1
  · exact fun _ heq => hfalse (List.cons.inj heq).1

theorem readSpecialFloat_digit : readSpecialFloat (c :: cs) = none := by
  have hinf := ne_of_isDigit c 'i' hc rfl
  have hnan := ne_of_isDigit c 'n' hc rfl
  rw [readSpecialFloat]
  · exact fun _ heq => hinf (List.cons.inj heq).1
  · exact fun _ heq => hnan (List.cons.inj heq).1

theorem skipSign_digit : skipSign (c :: cs) = c :: cs := by
  rw [skipSign]
  · exact fun _ heq => ne_of_isDigit c '+' hc rfl (List.cons.inj heq).1
  · exact fun _ heq => ne_of_isDigit c '-' hc rfl (List.cons.inj heq).1

theorem isNegative_digit : isNegative (c :: cs) = false := by
  rw [isNegative]
  exact fun _ heq => ne_of_isDigit c '-' hc rfl (List.cons.inj heq).1

end

theorem decimal_eq_cons (n : Nat) :
    ∃ c cs, Numeral.decimal n = c :: cs ∧ Numeral.isDigit 10 c = true := by
  cases hdecimal : Numeral.decimal n with
  | nil => exact absurd hdecimal (Numeral.digits_ne_nil 10 n)
  | cons c cs => exact ⟨c, cs, rfl, isDigit_of_mem_decimal n c (hdecimal ▸ List.mem_cons_self)⟩

theorem readFloat_decimal (n : Nat) (rest : List Char) :
    readFloat (Numeral.decimal n ++ '\n' :: rest) = none := by
  have hwhole := readWhole_decimal n rest
  obtain ⟨c, cs, hdecimal, hc⟩ := decimal_eq_cons n
  rw [hdecimal, List.cons_append] at hwhole ⊢
  rw [readFloat, readDecimalFloat, skipSign_digit c _ hc, hwhole, readSpecialFloat_digit c _ hc]
  rfl

/-- The number zero is followed by no letter that names a base. -/
theorem readInteger_decimal (n : Nat) (rest : List Char) :
    readInteger (Numeral.decimal n ++ '\n' :: rest) =
      readDecimal (Numeral.decimal n ++ '\n' :: rest) := by
  by_cases hzero : n = 0
  · rw [hzero, Numeral.decimal_zero]
    rfl
  · have hhead := Numeral.head?_digits 10 n (by decide) (by decide) hzero
    obtain ⟨c, cs, hdecimal, -⟩ := decimal_eq_cons n
    change (Numeral.decimal n).head? ≠ _ at hhead
    rw [hdecimal] at hhead ⊢
    have hne : c ≠ '0' := fun hc => hhead (congrArg some hc)
    rw [List.cons_append, readInteger]
    · exact fun _ heq => hne (List.cons.inj heq).1
    · exact fun _ heq => hne (List.cons.inj heq).1
    · exact fun _ heq => hne (List.cons.inj heq).1

/-- A whole number is read as itself, and not as a fraction. -/
theorem readDecimal_decimal (n : Nat) (rest : List Char) (h : (n : Int) ≤ maxId) :
    readDecimal (Numeral.decimal n ++ '\n' :: rest) = some (.integer n, '\n' :: rest) := by
  have hwhole := readWhole_decimal n rest
  have hvalue : Numeral.value? 10 (Numeral.decimal n) = some n :=
    Numeral.value?_digits 10 n (by decide) (by decide)
  have hinteger : integerOf? false n = some (.integer n) := by
    have hlow : minId ≤ (n : Int) := Int.le_trans (by decide) (Int.natCast_nonneg n)
    exact if_pos ⟨hlow, h⟩
  obtain ⟨c, cs, hdecimal, hc⟩ := decimal_eq_cons n
  rw [hdecimal, List.cons_append] at hwhole ⊢
  rw [hdecimal] at hvalue
  rw [readDecimal, skipSign_digit c _ hc, isNegative_digit c _ hc, hwhole]
  simp only [Option.bind_eq_bind, Option.bind_some, hvalue, hinteger]
  rfl

/-- All other readers leave a number alone. -/
theorem shows_decimal (n : Nat) (h : (n : Int) ≤ maxId) :
    Shows (Numeral.decimal n) (.integer n) := by
  intro rest
  have hdigits := isDigit_of_mem_decimal n
  have hdateTime : readDateTime (Numeral.decimal n ++ '\n' :: rest) = none := by
    rw [readDateTime, readDate_digits _ rest hdigits, readTime_digits _ rest hdigits]
    rfl
  have hfloat := readFloat_decimal n rest
  have hinteger := readInteger_decimal n rest
  rw [readDecimal_decimal n rest h] at hinteger
  obtain ⟨c, cs, hdecimal, hc⟩ := decimal_eq_cons n
  rw [hdecimal, List.cons_append] at hdateTime hfloat hinteger ⊢
  rw [readValue_scalar c, readScalar, readString_digit c _ hc, readBoolean_digit c _ hc, hdateTime,
    hfloat, hinteger]
  · rfl
  · have hspace := ne_of_isDigit c ' ' hc rfl
    have htab := ne_of_isDigit c '\t' hc rfl
    simp [isBlank, hspace, htab]
  · exact ne_of_isDigit c '[' hc rfl
  · exact ne_of_isDigit c '\x7b' hc rfl

end ConnectionLog.Toml
