import ConnectionLog.Proofs.Text.Numerals
import ConnectionLog.Toml.Writer

/-!
Strings and keys are read as they were written, whatever characters they hold. Each of
the four kinds of strings is read back by its own reader; the kinds that show a text
as it is are chosen only for texts that they can hold.
-/
namespace ConnectionLog.Toml

/-! Escapes. -/

def Escapes (code : List Char) (c : Char) : Prop :=
  ∀ rest, ∃ h, readEscape (code ++ rest) = some (c, ⟨rest, h⟩)

theorem escapes_letter (letter c : Char) (h : escaped? letter = some c) :
    Escapes [letter] c := by
  intro rest
  have hu : letter ≠ 'u' := by
    rintro rfl
    exact nomatch h
  have hU : letter ≠ 'U' := by
    rintro rfl
    exact nomatch h
  refine ⟨by simp, ?_⟩
  change readEscape (letter :: rest) = _
  rw [readEscape, h]
  · rfl
  · exact fun _ _ _ _ _ heq => absurd heq hu
  · exact fun _ _ _ _ _ _ _ _ _ heq => absurd heq hU

theorem escapes_number (a b d e : Char) (c : Char) (h : charOfHex? [a, b, d, e] = some c) :
    Escapes ['u', a, b, d, e] c := by
  intro rest
  refine ⟨by simp only [List.cons_append, List.length_cons, List.nil_append]; omega, ?_⟩
  simp only [List.cons_append, List.nil_append, readEscape, h, Option.map_some]

/-- The number of a character below 256 takes two digits after two zeros. -/
theorem hexCapitals_four (n : Nat) (h : n < 256) :
    hexCapitals 4 n = ['0', '0', (Numeral.digitChar (n / 16)).toUpper,
      (Numeral.digitChar (n % 16)).toUpper] := by
  unfold hexCapitals
  rw [Numeral.digits]
  by_cases hsmall : n < 16
  · have hhigh : n / 16 = 0 := by omega
    have hlow : n % 16 = n := by omega
    rw [dif_pos (Or.inr hsmall), hhigh, hlow]
    rfl
  · rw [dif_neg (by omega), Numeral.digits, dif_pos (Or.inr (by omega))]
    rfl

theorem digit?_toUpper_digitChar :
    ∀ d < 16, Numeral.digit? (Numeral.digitChar d).toUpper = some d := by decide

/-- A character is read back from its number. -/
theorem charOfHex?_hexCapitals (c : Char) (h : c.toNat < 256) :
    charOfHex? (hexCapitals 4 c.toNat) = some c := by
  have hhigh := digit?_toUpper_digitChar (c.toNat / 16) (by omega)
  have hlow := digit?_toUpper_digitChar (c.toNat % 16) (by omega)
  have hlt : c.toNat / 16 < 16 := by omega
  have hmod : c.toNat % 16 < 16 := by omega
  have hsum : c.toNat / 16 * 16 + c.toNat % 16 = c.toNat := by omega
  have hzero : Numeral.digit? '0' = some 0 := rfl
  have hvalue : Numeral.value? 16 (hexCapitals 4 c.toNat) = some c.toNat := by
    rw [hexCapitals_four c.toNat h]
    simp [Numeral.value?, Numeral.valueFrom, hzero, hhigh, hlow, hlt, hmod, hsum]
  rw [charOfHex?, hvalue]
  simp only [Char.ofNat_toNat]
  exact if_pos c.valid

theorem ne_of_isControl (c d : Char) (hc : isControl c = false) (hd : isControl d = true) :
    c ≠ d := by
  rintro rfl
  rw [hc] at hd
  exact Bool.false_ne_true hd

theorem toNat_lt_of_isControl (c : Char) (h : isControl c = true) : c.toNat < 256 := by
  simp only [isControl, Bool.or_eq_true, Bool.and_eq_true, decide_eq_true_eq] at h
  omega

/-- All that a character can be written as in a string with escapes: an escape, the end of
a line where lines may end, or itself. -/
theorem escape_cases (lines : Bool) (c : Char) :
    (∃ code, escape lines c = '\\' :: code ∧ Escapes code c) ∨
      (lines = true ∧ c = '\n' ∧ escape lines c = ['\n']) ∨
      (escape lines c = [c] ∧ c ≠ '\\' ∧ isControl c = false) := by
  unfold escape
  split_ifs with hb ht hn hlines hf hr hback hcontrol
  · exact Or.inl ⟨_, rfl, hb ▸ escapes_letter 'b' _ rfl⟩
  · exact Or.inl ⟨_, rfl, ht ▸ escapes_letter 't' _ rfl⟩
  · exact Or.inr (Or.inl ⟨hlines, hn, rfl⟩)
  · exact Or.inl ⟨_, rfl, hn ▸ escapes_letter 'n' _ rfl⟩
  · exact Or.inl ⟨_, rfl, hf ▸ escapes_letter 'f' _ rfl⟩
  · exact Or.inl ⟨_, rfl, hr ▸ escapes_letter 'r' _ rfl⟩
  · exact Or.inl ⟨_, rfl, hback ▸ escapes_letter '\\' _ rfl⟩
  · have hlt := toNat_lt_of_isControl c hcontrol
    refine Or.inl ⟨_, rfl, ?_⟩
    have hchar := charOfHex?_hexCapitals c hlt
    rw [hexCapitals_four c.toNat hlt] at hchar ⊢
    exact escapes_number _ _ _ _ c hchar
  · exact Or.inr (Or.inr ⟨rfl, hback, by simpa using hcontrol⟩)

/-- A character other than a quote is not written with one in front. -/
theorem head?_escape (lines : Bool) (c : Char) (rest : List Char) (hc : c ≠ '"') :
    (escape lines c ++ rest).head? ≠ some '"' := by
  rcases escape_cases lines c with ⟨code, hcode, -⟩ | ⟨-, -, hline⟩ | ⟨hplain, -, -⟩
  · rw [hcode]
    exact nofun
  · rw [hline]
    exact nofun
  · rw [hplain]
    simpa using hc

theorem escapes_quote : Escapes ['"'] '"' := escapes_letter '"' _ rfl

/-! Strings in double quotes. -/

theorem readBasic_escape (code rest : List Char) (c : Char) (h : Escapes code c) :
    readBasic ('\\' :: (code ++ rest)) = prepend c (readBasic rest) := by
  obtain ⟨hlen, hread⟩ := h rest
  rw [readBasic, hread]

theorem readBasic_plain (c : Char) (rest : List Char) (hquote : c ≠ '"') (hback : c ≠ '\\')
    (hcontrol : isControl c = false) : readBasic (c :: rest) = prepend c (readBasic rest) := by
  rw [readBasic]
  · simp only [hcontrol, Bool.false_eq_true, if_false]
  · exact hquote
  · exact hback

/-- One character is read off its escape or itself. -/
theorem readBasic_escape_false (c : Char) (rest : List Char) (hquote : c ≠ '"') :
    readBasic (escape false c ++ rest) = prepend c (readBasic rest) := by
  rcases escape_cases false c with ⟨code, hcode, hescapes⟩ | ⟨hlines, -, -⟩ |
    ⟨hplain, hback, hcontrol⟩
  · rw [hcode]
    exact readBasic_escape _ _ _ hescapes
  · exact absurd hlines Bool.false_ne_true
  · rw [hplain]
    exact readBasic_plain c _ hquote hback hcontrol

/-- What is written between double quotes is read back. -/
theorem readBasic_basicChars (cs rest : List Char) :
    readBasic (basicChars cs ++ '"' :: rest) = some (cs, rest) := by
  induction cs with
  | nil =>
    change readBasic ('"' :: rest) = _
    rw [readBasic]
  | cons c cs ih =>
    have hread : readBasic (basicChars (c :: cs) ++ '"' :: rest) =
        prepend c (readBasic (basicChars cs ++ '"' :: rest)) := by
      simp only [basicChars, List.flatMap_cons, List.append_assoc]
      by_cases hquote : c = '"'
      · rw [if_pos hquote, hquote]
        exact readBasic_escape _ _ _ escapes_quote
      · rw [if_neg hquote]
        exact readBasic_escape_false c _ hquote
    rw [hread, ih]
    rfl

theorem take_two_ne (quote : Char) (text : List Char) (h : text.head? ≠ some quote) :
    text.take 2 ≠ [quote, quote] := by
  intro htwo
  cases text with
  | nil => cases htwo
  | cons c text => exact h (congrArg some (List.cons.inj htwo).1)

/-- Where one quote stands, no second one follows it if the text behind does not start
with one. -/
theorem take_two_cons_ne (quote : Char) (rest : List Char) (h : rest.head? ≠ some quote) :
    (quote :: rest).take 2 ≠ [quote, quote] := by
  intro htwo
  cases rest with
  | nil => cases htwo
  | cons c rest => exact h (congrArg some (List.cons.inj (List.cons.inj htwo).2).1)

/-- The content of a string in double quotes does not start with one. -/
theorem take_two_basicChars (cs rest : List Char) (hrest : rest.head? ≠ some '"') :
    (basicChars cs ++ '"' :: rest).take 2 ≠ ['"', '"'] := by
  cases cs with
  | nil => exact take_two_cons_ne '"' rest hrest
  | cons c cs =>
    apply take_two_ne
    simp only [basicChars, List.flatMap_cons, List.append_assoc]
    by_cases hquote : c = '"'
    · rw [if_pos hquote]
      exact nofun
    · rw [if_neg hquote]
      exact head?_escape false c _ hquote

/-! Strings between three quotes. Up to two quotes in front of the closing ones belong to the
string, so that a run of quotes at its end is the one place where reading does not go on
character by character. -/

theorem closing_replicate (quote : Char) (k : Nat) (rest : List Char) (hk : k ≤ 2)
    (hrest : rest.head? ≠ some quote) :
    closing quote (List.replicate k quote ++ rest) = (List.replicate k quote, rest) := by
  have hfirst : ∀ c cs, rest = c :: cs → c ≠ quote := by
    rintro c cs rfl hc
    exact hrest (by rw [hc, List.head?_cons])
  match k, rest with
  | 0, [] => rfl
  | 0, [c] => simp [closing, hfirst c [] rfl]
  | 0, c :: d :: cs => simp [closing, hfirst c (d :: cs) rfl]
  | 1, [] => simp [closing]
  | 1, c :: cs => simp [closing, hfirst c cs rfl]
  | 2, cs => simp [closing, List.replicate]

/-- Quotes in front of the closing ones may as well stand behind them. -/
theorem replicate_append_quotes (quote : Char) (k : Nat) (rest : List Char) :
    List.replicate k quote ++ (quotes quote ++ rest) =
      quote :: quote :: quote :: (List.replicate k quote ++ rest) := by
  have hquotes : quotes quote = List.replicate 3 quote := rfl
  rw [hquotes, ← List.append_assoc, List.replicate_append_replicate, Nat.add_comm,
    ← List.replicate_append_replicate, List.append_assoc]
  rfl

theorem readBasicLines_close (k : Nat) (rest : List Char) (hk : k ≤ 2)
    (hrest : rest.head? ≠ some '"') :
    readBasicLines .none (List.replicate k '"' ++ (quotes '"' ++ rest)) =
      some (List.replicate k '"', rest) := by
  rw [replicate_append_quotes, readBasicLines, if_neg (by decide),
    closing_replicate '"' k rest hk hrest]

theorem readBasicLines_quote (cs : List Char) (h : cs.take 2 ≠ ['"', '"']) :
    readBasicLines .none ('"' :: cs) = prepend '"' (readBasicLines .none cs) := by
  rw [readBasicLines]
  · rfl
  · exact fun hc => absurd hc (by decide)
  · exact fun _ hc => absurd hc (by decide)
  · rintro rest - rfl
    exact h rfl

theorem readBasicLines_escape (code rest : List Char) (c : Char) (h : Escapes code c) :
    readBasicLines .none ('\\' :: (code ++ rest)) = prepend c (readBasicLines .none rest) := by
  obtain ⟨hlen, hread⟩ := h rest
  rw [readBasicLines, hread]
  · rfl
  · exact fun hc => absurd hc (by decide)
  · exact fun _ hc => absurd hc (by decide)
  · exact fun _ hc => absurd hc (by decide)

theorem readBasicLines_plain (c : Char) (rest : List Char) (hquote : c ≠ '"') (hback : c ≠ '\\')
    (hcontrol : isControl c = false) :
    readBasicLines .none (c :: rest) = prepend c (readBasicLines .none rest) := by
  have hfeed := ne_of_isControl c '\n' hcontrol rfl
  have hreturn := ne_of_isControl c '\r' hcontrol rfl
  rw [readBasicLines, if_neg (by simp), if_neg (by decide), if_neg hback, hcontrol]
  · rfl
  · exact hfeed
  · exact fun _ hc => absurd hc hreturn
  · exact fun _ hc => absurd hc hquote

theorem readBasicLines_escape_true (c : Char) (rest : List Char) (hquote : c ≠ '"') :
    readBasicLines .none (escape true c ++ rest) = prepend c (readBasicLines .none rest) := by
  rcases escape_cases true c with ⟨code, hcode, hescapes⟩ | ⟨-, hc, hline⟩ |
    ⟨hplain, hback, hcontrol⟩
  · rw [hcode]
    exact readBasicLines_escape _ _ _ hescapes
  · rw [hline, hc, List.singleton_append, readBasicLines, if_pos rfl]
  · rw [hplain]
    exact readBasicLines_plain c _ hquote hback hcontrol

/-- After two quotes no further one is shown as it is. -/
theorem head?_basicLinesFrom (run : Nat) (c : Char) (cs rest : List Char)
    (h : c ≠ '"' ∨ run = 2) : (basicLinesFrom run (c :: cs) ++ rest).head? ≠ some '"' := by
  unfold basicLinesFrom
  by_cases hquote : c = '"'
  · rw [if_pos hquote, if_pos (h.resolve_left (not_not.mpr hquote))]
    exact nofun
  · rw [if_neg hquote, List.append_assoc]
    exact head?_escape true c _ hquote

theorem basicLinesFrom_replicate (run k : Nat) (h : run + k ≤ 2) :
    basicLinesFrom run (List.replicate k '"') = List.replicate k '"' := by
  induction k generalizing run with
  | zero => rfl
  | succ k ih =>
    rw [List.replicate_succ, basicLinesFrom, if_pos rfl, if_neg (by omega), ih (run + 1) (by omega)]

/-- Two quotes come next only if nothing but quotes is left. -/
theorem replicate_of_take_two (run : Nat) (cs rest : List Char) (hpos : 0 < run) (hrun : run ≤ 2)
    (h : (basicLinesFrom run cs ++ (quotes '"' ++ rest)).take 2 = ['"', '"']) :
    ∃ k, cs = List.replicate k '"' ∧ run + k ≤ 2 := by
  cases cs with
  | nil => exact ⟨0, rfl, hrun⟩
  | cons c cs =>
    by_cases hfull : c ≠ '"' ∨ run = 2
    · exact absurd h (take_two_ne '"' _ (head?_basicLinesFrom run c cs _ hfull))
    · obtain ⟨hquote, hone⟩ := not_or.mp hfull
      have hquote : c = '"' := not_not.mp hquote
      have hone : run = 1 := by omega
      subst hquote hone
      cases cs with
      | nil => exact ⟨1, rfl, by omega⟩
      | cons d cs =>
        have hnext := head?_basicLinesFrom 2 d cs (quotes '"' ++ rest) (Or.inr rfl)
        rw [basicLinesFrom, if_pos rfl, if_neg (by omega)] at h
        exact absurd h (take_two_cons_ne '"' _ hnext)

/-- The induction is on the characters, over any run of at most two quotes that came just
before: the writer counts them, while the reader looks ahead. -/
theorem readBasicLines_basicLinesFrom (run : Nat) (cs rest : List Char) (hrun : run ≤ 2)
    (hrest : rest.head? ≠ some '"') :
    readBasicLines .none (basicLinesFrom run cs ++ (quotes '"' ++ rest)) = some (cs, rest) := by
  induction cs generalizing run with
  | nil => exact readBasicLines_close 0 rest (by omega) hrest
  | cons c cs ih =>
    by_cases hquote : c = '"'
    · subst hquote
      by_cases hfull : run = 2
      · rw [basicLinesFrom, if_pos rfl, if_pos hfull, List.append_assoc]
        change readBasicLines .none ('\\' :: (['"'] ++ _)) = _
        rw [readBasicLines_escape _ _ _ escapes_quote, ih 0 (by omega)]
        rfl
      · by_cases htwo : (basicLinesFrom (run + 1) cs ++ (quotes '"' ++ rest)).take 2 = ['"', '"']
        · obtain ⟨k, rfl, hk⟩ := replicate_of_take_two (run + 1) cs rest (by omega) (by omega) htwo
          rw [← List.replicate_succ, basicLinesFrom_replicate run (k + 1) (by omega)]
          exact readBasicLines_close (k + 1) rest (by omega) hrest
        · rw [basicLinesFrom, if_pos rfl, if_neg hfull, List.cons_append,
            readBasicLines_quote _ htwo, ih (run + 1) (by omega)]
          rfl
    · rw [basicLinesFrom, if_neg hquote, List.append_assoc,
        readBasicLines_escape_true c _ hquote, ih 0 (by omega)]
      rfl

/-! Strings in single quotes. -/

theorem readLiteral_of_plain (cs rest : List Char)
    (h : ∀ c ∈ cs, c ≠ '\'' ∧ isControl c = false) :
    readLiteral (cs ++ '\'' :: rest) = some (cs, rest) := by
  induction cs with
  | nil => rfl
  | cons c cs ih =>
    obtain ⟨hquote, hcontrol⟩ := h c List.mem_cons_self
    have hrest := ih fun d hd => h d (List.mem_cons_of_mem c hd)
    rw [List.cons_append, readLiteral, hcontrol, hrest]
    · rfl
    · exact hquote

/-- The content of a string in single quotes does not start with one. -/
theorem take_two_plain (cs rest : List Char) (h : ∀ c ∈ cs, c ≠ '\'' ∧ isControl c = false)
    (hrest : rest.head? ≠ some '\'') : (cs ++ '\'' :: rest).take 2 ≠ ['\'', '\''] := by
  cases cs with
  | nil => exact take_two_cons_ne '\'' rest hrest
  | cons c cs =>
    have hc := (h c List.mem_cons_self).1
    exact take_two_ne '\'' _ fun heq => hc (Option.some.inj heq)

theorem le_longestRunFrom (quote : Char) (run : Nat) (cs : List Char) :
    run ≤ longestRunFrom quote run cs := by
  induction cs generalizing run with
  | nil => exact Nat.le_refl run
  | cons c cs ih =>
    unfold longestRunFrom
    split
    · exact Nat.le_trans (Nat.le_succ run) (ih (run + 1))
    · exact Nat.le_max_left _ _

/-- A text without runs of a quote does not hold it. -/
theorem ne_of_longestRunFrom (quote : Char) (cs : List Char) (h : longestRunFrom quote 0 cs = 0) :
    ∀ c ∈ cs, c ≠ quote := by
  induction cs with
  | nil => exact nofun
  | cons c cs ih =>
    unfold longestRunFrom at h
    by_cases hc : c = quote
    · rw [if_pos hc] at h
      have hle := le_longestRunFrom quote (0 + 1) cs
      omega
    · rw [if_neg hc] at h
      intro d hd
      rcases List.mem_cons.mp hd with rfl | hd
      · exact hc
      · exact ih (by omega) d hd

theorem readLiteralLines_close (k : Nat) (rest : List Char) (hk : k ≤ 2)
    (hrest : rest.head? ≠ some '\'') :
    readLiteralLines (List.replicate k '\'' ++ (quotes '\'' ++ rest)) =
      some (List.replicate k '\'', rest) := by
  rw [replicate_append_quotes, readLiteralLines, closing_replicate '\'' k rest hk hrest]

theorem readLiteralLines_quote (cs : List Char) (h : cs.take 2 ≠ ['\'', '\'']) :
    readLiteralLines ('\'' :: cs) = prepend '\'' (readLiteralLines cs) := by
  rw [readLiteralLines]
  · rfl
  · exact fun hc => absurd hc (by decide)
  · exact fun _ hc => absurd hc (by decide)
  · rintro rest - rfl
    exact h rfl

theorem readLiteralLines_plain (c : Char) (rest : List Char) (hquote : c ≠ '\'')
    (h : isControl c = true → c = '\n') :
    readLiteralLines (c :: rest) = prepend c (readLiteralLines rest) := by
  cases hcontrol : isControl c with
  | true => rw [h hcontrol, readLiteralLines]
  | false =>
    have hfeed := ne_of_isControl c '\n' hcontrol rfl
    have hreturn := ne_of_isControl c '\r' hcontrol rfl
    rw [readLiteralLines, hcontrol]
    · rfl
    · exact hfeed
    · exact fun _ hc => absurd hc hreturn
    · exact fun _ hc => absurd hc hquote

/-- In a text without longer runs two quotes come next only if nothing but quotes is left. -/
theorem replicate_of_take_two_literal (run : Nat) (cs rest : List Char) (hpos : 0 < run)
    (hrun : longestRunFrom '\'' run cs ≤ 2)
    (h : (cs ++ (quotes '\'' ++ rest)).take 2 = ['\'', '\'']) :
    ∃ k, cs = List.replicate k '\'' ∧ run + k ≤ 2 := by
  match cs with
  | [] => exact ⟨0, rfl, hrun⟩
  | [c] =>
    have hc : c = '\'' := (List.cons.inj h).1
    subst hc
    exact ⟨1, rfl, hrun⟩
  | c :: d :: cs =>
    have hc : c = '\'' := (List.cons.inj h).1
    have hd : d = '\'' := (List.cons.inj (List.cons.inj h).2).1
    subst hc hd
    have hle := le_longestRunFrom '\'' (run + 1 + 1) cs
    rw [longestRunFrom, if_pos rfl, longestRunFrom, if_pos rfl] at hrun
    omega

theorem readLiteralLines_of_plain (run : Nat) (cs rest : List Char)
    (hplain : ∀ c ∈ cs, isControl c = true → c = '\n')
    (hrun : longestRunFrom '\'' run cs ≤ 2) (hrest : rest.head? ≠ some '\'') :
    readLiteralLines (cs ++ (quotes '\'' ++ rest)) = some (cs, rest) := by
  induction cs generalizing run with
  | nil => exact readLiteralLines_close 0 rest (by omega) hrest
  | cons c cs ih =>
    have hplain' := fun d hd => hplain d (List.mem_cons_of_mem c hd)
    unfold longestRunFrom at hrun
    by_cases hquote : c = '\''
    · subst hquote
      rw [if_pos rfl] at hrun
      by_cases htwo : (cs ++ (quotes '\'' ++ rest)).take 2 = ['\'', '\'']
      · obtain ⟨k, rfl, hk⟩ :=
          replicate_of_take_two_literal (run + 1) cs rest (by omega) hrun htwo
        exact readLiteralLines_close (k + 1) rest (by omega) hrest
      · rw [List.cons_append, readLiteralLines_quote _ htwo, ih (run + 1) hplain' hrun]
        rfl
    · rw [if_neg hquote] at hrun
      have hc := hplain c List.mem_cons_self
      rw [List.cons_append, readLiteralLines_plain c _ hquote hc, ih 0 hplain' (by omega)]
      rfl

/-! Strings of any kind. -/

theorem write_basic_append (cs rest : List Char) :
    Quoting.basic.write cs ++ rest = '"' :: (basicChars cs ++ '"' :: rest) := by
  simp only [Quoting.write, List.cons_append, List.append_assoc, List.nil_append]

theorem write_literal_append (cs rest : List Char) :
    Quoting.literal.write cs ++ rest = '\'' :: (cs ++ '\'' :: rest) := by
  simp only [Quoting.write, List.cons_append, List.append_assoc, List.nil_append]

theorem write_basicLines_append (cs rest : List Char) :
    Quoting.basicLines.write cs ++ rest = '"' :: '"' :: '"' ::
      (margin cs ++ (basicLinesFrom 0 cs ++ (quotes '"' ++ rest))) := by
  simp only [Quoting.write, quotes, List.cons_append, List.append_assoc, List.nil_append]

theorem write_literalLines_append (cs rest : List Char) :
    Quoting.literalLines.write cs ++ rest = '\'' :: '\'' :: '\'' ::
      (margin cs ++ (cs ++ (quotes '\'' ++ rest))) := by
  simp only [Quoting.write, quotes, List.cons_append, List.append_assoc, List.nil_append]

theorem readString_basic (cs : List Char) (h : cs.take 2 ≠ ['"', '"']) :
    readString ('"' :: cs) = readBasic cs := by
  rw [readString]
  rintro rest rfl
  exact h rfl

theorem readString_literal (cs : List Char) (h : cs.take 2 ≠ ['\'', '\'']) :
    readString ('\'' :: cs) = readLiteral cs := by
  rw [readString]
  rintro rest rfl
  exact h rfl

def SameLine (text : List Char) : Prop := text.head? ≠ some '\n' ∧ text.head? ≠ some '\r'

/-- The line that a string of several lines starts with is left out again. -/
theorem skipNewline_margin (cs text : List Char) (h : '\n' ∉ cs → SameLine text) :
    skipNewline (margin cs ++ text) = text := by
  unfold margin
  by_cases hline : cs.contains '\n' = true
  · rw [if_pos hline]
    rfl
  · obtain ⟨hfeed, hreturn⟩ := h (by simpa using hline)
    rw [if_neg hline, List.nil_append, skipNewline]
    cases text with
    | nil => rfl
    | cons c text =>
      rw [newline?]
      · rfl
      · exact fun _ heq => hfeed (congrArg List.head? heq)
      · exact fun _ heq => hreturn (congrArg List.head? heq)

theorem sameLine_cons (c : Char) (text : List Char) (hc : isControl c = false) :
    SameLine (c :: text) := by
  have hfeed := ne_of_isControl c '\n' hc rfl
  have hreturn := ne_of_isControl c '\r' hc rfl
  exact ⟨fun heq => hfeed (Option.some.inj heq), fun heq => hreturn (Option.some.inj heq)⟩

theorem sameLine_basicLinesFrom (cs rest : List Char) (hline : '\n' ∉ cs) :
    SameLine (basicLinesFrom 0 cs ++ (quotes '"' ++ rest)) := by
  cases cs with
  | nil => exact sameLine_cons '"' _ rfl
  | cons c cs =>
    unfold basicLinesFrom
    by_cases hquote : c = '"'
    · rw [if_pos hquote]
      exact sameLine_cons '"' _ rfl
    · rw [if_neg hquote, List.append_assoc]
      rcases escape_cases true c with ⟨code, hcode, -⟩ | ⟨-, hc, -⟩ | ⟨hshown, -, hcontrol⟩
      · rw [hcode]
        exact sameLine_cons '\\' _ rfl
      · exact absurd (hc ▸ List.mem_cons_self) hline
      · rw [hshown]
        exact sameLine_cons c _ hcontrol

theorem sameLine_plain (cs rest : List Char) (hplain : ∀ c ∈ cs, isControl c = true → c = '\n')
    (hline : '\n' ∉ cs) : SameLine (cs ++ (quotes '\'' ++ rest)) := by
  cases cs with
  | nil => exact sameLine_cons '\'' _ rfl
  | cons c cs =>
    apply sameLine_cons
    by_contra hcontrol
    have hfeed := hplain c List.mem_cons_self (by simpa using hcontrol)
    exact hline (hfeed ▸ List.mem_cons_self)

/-- What a kind of string needs of the texts it is to show. -/
def Quoting.Fits (cs : List Char) : Quoting → Prop
  | basic => True
  | literal => ∀ c ∈ cs, c ≠ '\'' ∧ isControl c = false
  | basicLines => True
  | literalLines => (∀ c ∈ cs, isControl c = true → c = '\n') ∧ longestRun '\'' cs ≤ 2

/-- The kind of string that is chosen can show the text. -/
theorem choose_fits (cs : List Char) : (Quoting.choose cs).Fits cs := by
  have hplain : cs.any needsEscape = false → ∀ c ∈ cs, isControl c = true → c = '\n' := by
    intro hany c hc hcontrol
    have hneeds := List.any_eq_false.mp hany c hc
    simpa [needsEscape, hcontrol] using hneeds
  unfold Quoting.choose
  simp only
  split_ifs with h₁ h₂ h₃ h₄ h₅
  · trivial
  · simp only [Bool.and_eq_true, Bool.not_eq_true', decide_eq_true_eq] at h₂
    obtain ⟨⟨hany, hrun⟩, hline⟩ := h₂
    intro c hc
    refine ⟨ne_of_longestRunFrom '\'' cs hrun c hc, ?_⟩
    by_contra hcontrol
    have hfeed := hplain hany c hc (by simpa using hcontrol)
    rw [hfeed] at hc
    exact absurd hc (by simpa using hline)
  · trivial
  · simp only [Bool.and_eq_true, Bool.not_eq_true', decide_eq_true_eq] at h₄
    exact ⟨hplain h₄.1, h₄.2⟩
  · trivial
  · trivial

/-- Every kind of string gives back what was written in it. -/
theorem readString_write (quoting : Quoting) (cs rest : List Char) (hfits : quoting.Fits cs)
    (hdouble : rest.head? ≠ some '"') (hsingle : rest.head? ≠ some '\'') :
    readString (quoting.write cs ++ rest) = some (cs, rest) := by
  cases quoting with
  | basic =>
    rw [write_basic_append, readString_basic _ (take_two_basicChars cs rest hdouble)]
    exact readBasic_basicChars cs rest
  | literal =>
    rw [write_literal_append, readString_literal _ (take_two_plain cs rest hfits hsingle)]
    exact readLiteral_of_plain cs rest hfits
  | basicLines =>
    rw [write_basicLines_append, readString,
      skipNewline_margin _ _ (sameLine_basicLinesFrom cs rest)]
    exact readBasicLines_basicLinesFrom 0 cs rest (Nat.zero_le 2) hdouble
  | literalLines =>
    rw [write_literalLines_append, readString,
      skipNewline_margin _ _ (sameLine_plain cs rest hfits.1)]
    exact readLiteralLines_of_plain 0 cs rest hfits.1 hfits.2 hsingle

/-- A string is read as it was written. -/
theorem readString_writeString (s : String) (rest : List Char)
    (hdouble : rest.head? ≠ some '"') (hsingle : rest.head? ≠ some '\'') :
    readString (writeString s ++ rest) = some (s.toList, rest) :=
  readString_write _ _ rest (choose_fits s.toList) hdouble hsingle

/-! Keys. -/

theorem readKey_bare (cs rest : List Char) (hne : cs ≠ []) (h : cs.all isBare = true)
    (hrest : ∀ c ∈ rest.head?, isBare c = false) :
    readKey (cs ++ rest) = some (String.ofList cs, rest) := by
  have hall := List.all_eq_true.mp h
  have htake : (cs ++ rest).takeWhile isBare = cs := by
    rw [List.takeWhile_append_of_pos hall]
    cases rest with
    | nil => simp
    | cons c rest => rw [List.takeWhile_cons_of_neg (by simp [hrest c rfl]), List.append_nil]
  have hdrop : (cs ++ rest).dropWhile isBare = rest := by
    rw [List.dropWhile_append_of_pos hall]
    cases rest with
    | nil => rfl
    | cons c rest => rw [List.dropWhile_cons_of_neg (by simp [hrest c rfl])]
  cases cs with
  | nil => exact absurd rfl hne
  | cons c cs =>
    have hc := hall c List.mem_cons_self
    rw [List.cons_append, readKey, ← List.cons_append, htake, hdrop]
    · intro _ heq
      rw [(List.cons.inj heq).1] at hc
      exact nomatch hc
    · intro _ heq
      rw [(List.cons.inj heq).1] at hc
      exact nomatch hc

theorem readKey_basic (cs rest : List Char) :
    readKey (Quoting.basic.write cs ++ rest) = some (String.ofList cs, rest) := by
  rw [write_basic_append, readKey, readBasic_basicChars]
  rfl

theorem readKey_literal (cs rest : List Char) (h : ∀ c ∈ cs, c ≠ '\'' ∧ isControl c = false) :
    readKey (Quoting.literal.write cs ++ rest) = some (String.ofList cs, rest) := by
  rw [write_literal_append, readKey, readLiteral_of_plain cs rest h]
  rfl

/-- A key is read back, whatever is in it. -/
theorem readKey_writeKeyChars (cs rest : List Char)
    (hrest : ∀ c ∈ rest.head?, isBare c = false) :
    readKey (writeKeyChars cs ++ rest) = some (String.ofList cs, rest) := by
  unfold writeKeyChars
  simp only
  split_ifs with hbare hbasic hliteral
  · simp only [Bool.and_eq_true, decide_eq_true_eq] at hbare
    exact readKey_bare cs rest hbare.1 hbare.2 hrest
  · exact readKey_basic cs rest
  · simp only [Bool.and_eq_true, Bool.not_eq_true', List.any_eq_false] at hliteral
    refine readKey_literal cs rest fun c hc => ⟨?_, by simpa using hliteral.1 c hc⟩
    rintro rfl
    exact absurd hc (by simpa using hliteral.2)
  · exact readKey_basic cs rest

/-- A key is read as it was written, up to a character that is part of no bare key. -/
theorem readKey_writeKey (key : String) (rest : List Char)
    (hrest : ∀ c ∈ rest.head?, isBare c = false) :
    readKey (writeKey key ++ rest) = some (key, rest) := by
  rw [writeKey, readKey_writeKeyChars key.toList rest hrest, String.ofList_toList]

end ConnectionLog.Toml
