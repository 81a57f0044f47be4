import ConnectionLog.Numeral
import Mathlib.Data.List.Basic
import Mathlib.Data.List.Induction

/-!
Numerals stand for the number they were written for. A numeral is made of digits only,
and no zero is in front of another digit. No other text is such a numeral of that number.
-/
namespace ConnectionLog.Numeral

theorem valueFrom_append (base acc : Nat) (cs more : List Char) :
    valueFrom base acc (cs ++ more) =
      (valueFrom base acc cs).bind fun value => valueFrom base value more := by
  induction cs generalizing acc with
  | nil => rfl
  | cons c cs ih =>
    simp only [List.cons_append, valueFrom]
    cases digit? c with
    | none => rfl
    | some d =>
      simp only
      split
      · exact ih (acc * base + d)
      · rfl

theorem value?_of_ne_nil (base : Nat) (cs : List Char) (h : cs ≠ []) :
    value? base cs = valueFrom base 0 cs := by
  cases cs with
  | nil => exact absurd rfl h
  | cons c cs => rfl

/-- A character that is no digit spoils a numeral wherever it stands. -/
theorem value?_eq_none (base : Nat) (cs : List Char) (c : Char) (hmem : c ∈ cs)
    (hdigit : digit? c = none) : value? base cs = none := by
  obtain ⟨before, after, rfl⟩ := List.append_of_mem hmem
  have hnone : valueFrom base 0 (before ++ c :: after) = none := by
    rw [valueFrom_append]
    cases valueFrom base 0 before with
    | none => rfl
    | some value => simp only [Option.bind_some, valueFrom, hdigit]
  have hne : before ++ c :: after ≠ [] :=
    List.append_ne_nil_of_right_ne_nil before (List.cons_ne_nil c after)
  rw [value?_of_ne_nil base _ hne, hnone]

theorem decimal_zero : decimal 0 = ['0'] := by
  unfold decimal digits
  rfl

variable (base n : Nat)

theorem digits_of_lt (h : n < base) : digits base n = [digitChar n] := by
  rw [digits, dif_pos (.inr h)]

theorem digits_of_le (htwo : 2 ≤ base) (h : base ≤ n) :
    digits base n = digits base (n / base) ++ [digitChar (n % base)] := by
  rw [digits, dif_neg (by omega)]

theorem digits_ne_nil : digits base n ≠ [] := by
  rw [digits]
  split
  · exact List.cons_ne_nil _ _
  · simp

theorem valueFrom_digits (htwo : 2 ≤ base) (hbase : base ≤ 16) :
    valueFrom base 0 (digits base n) = some n := by
  fun_induction digits base n with
  | case1 n h =>
    have hlt : n < base := by omega
    simp [valueFrom, digit?_digitChar n (by omega), hlt]
  | case2 n h ih =>
    have hlt : n % base < base := Nat.mod_lt n (by omega)
    have hsum : n / base * base + n % base = n := Nat.div_add_mod' n base
    rw [valueFrom_append, ih]
    simp [valueFrom, digit?_digitChar (n % base) (by omega), hlt, hsum]

/-- A number is read back from its digits. -/
theorem value?_digits (htwo : 2 ≤ base) (hbase : base ≤ 16) :
    value? base (digits base n) = some n := by
  rw [value?_of_ne_nil base _ (digits_ne_nil base n), valueFrom_digits base n htwo hbase]

theorem isDigit_digitChar (d : Nat) (hd : d < base) (hbase : base ≤ 16) :
    isDigit base (digitChar d) = true := by
  simp only [isDigit, digit?_digitChar d (by omega), hd, decide_true]

theorem exists_of_mem_digits (htwo : 2 ≤ base) (c : Char) (hc : c ∈ digits base n) :
    ∃ d < base, c = digitChar d := by
  fun_induction digits base n with
  | case1 n h => exact ⟨n, by omega, List.mem_singleton.mp hc⟩
  | case2 n h ih =>
    rcases List.mem_append.mp hc with hc | hc
    · exact ih hc
    · exact ⟨n % base, Nat.mod_lt n (by omega), List.mem_singleton.mp hc⟩

theorem isDigit_of_mem_digits (htwo : 2 ≤ base) (hbase : base ≤ 16) (c : Char)
    (hc : c ∈ digits base n) : isDigit base c = true := by
  obtain ⟨d, hd, rfl⟩ := exists_of_mem_digits base n htwo c hc
  exact isDigit_digitChar base d hd hbase

/-- Only the numeral of zero starts with one. -/
theorem head?_digits (htwo : 2 ≤ base) (hbase : base ≤ 16) (hn : n ≠ 0) :
    (digits base n).head? ≠ some '0' := by
  fun_induction digits base n with
  | case1 n h =>
    intro hzero
    have hvalue := digit?_digitChar n (by omega)
    rw [List.head?_cons, Option.some.injEq] at hzero
    rw [hzero] at hvalue
    exact hn (Option.some.inj hvalue).symm
  | case2 n h ih =>
    have hquotient : n / base ≠ 0 := by
      have hpos := Nat.div_pos (show base ≤ n by omega) (show 0 < base by omega)
      omega
    rw [List.head?_append_of_ne_nil _ (digits_ne_nil base _)]
    exact ih hquotient

/-- The shortest numeral of a number, its letters in lower case. -/
structure IsPlain (base n : Nat) (cs : List Char) : Prop where
  value : value? base cs = some n
  lower : ∀ c ∈ cs, ¬ ('A' ≤ c ∧ c ≤ 'F')
  short : cs.head? = some '0' → cs = ['0']

theorem lower_digitChar : ∀ d < 16, ¬ ('A' ≤ digitChar d ∧ digitChar d ≤ 'F') := by
  decide

/-- The digits of a number are its plain numeral. -/
theorem digits_isPlain (htwo : 2 ≤ base) (hbase : base ≤ 16) :
    IsPlain base n (digits base n) where
  value := value?_digits base n htwo hbase
  lower c hc := by
    obtain ⟨d, hd, rfl⟩ := exists_of_mem_digits base n htwo c hc
    exact lower_digitChar d (by omega)
  short hhead := by
    have hzero : n = 0 := by
      by_contra hn
      exact head?_digits base n htwo hbase hn hhead
    rw [hzero, digits_of_lt base 0 (by omega)]
    rfl

/-- A digit that is no upper-case letter is the one written for its value. -/
theorem eq_digitChar (c : Char) (d : Nat) (hlower : ¬ ('A' ≤ c ∧ c ≤ 'F'))
    (hc : digit? c = some d) : c = digitChar d := by
  rw [digit?] at hc
  split_ifs at hc with hfigure hletter
  · cases hc
    have hge : '0'.toNat ≤ c.toNat := hfigure.1
    have hle : c.toNat ≤ '9'.toNat := hfigure.2
    have hsmall : c.toNat - '0'.toNat < 10 := Nat.lt_succ_of_le (Nat.sub_le_sub_right hle _)
    rw [digitChar, if_pos hsmall, Nat.add_sub_of_le hge, Char.ofNat_toNat]
  · cases hc
    have hge : 'a'.toNat ≤ c.toNat := hletter.1
    have hlarge : ¬ c.toNat - 'a'.toNat + 10 < 10 := Nat.not_lt.mpr (Nat.le_add_left 10 _)
    rw [digitChar, if_neg hlarge, Nat.add_sub_cancel, Nat.add_sub_of_le hge, Char.ofNat_toNat]

theorem valueFrom_concat (acc : Nat) (cs : List Char) (c : Char)
    (h : valueFrom base acc (cs ++ [c]) = some n) :
    ∃ m d, valueFrom base acc cs = some m ∧ digit? c = some d ∧ d < base ∧ n = m * base + d := by
  rw [valueFrom_append, Option.bind_eq_some_iff] at h
  obtain ⟨m, hm, hlast⟩ := h
  rw [valueFrom] at hlast
  split at hlast
  · split_ifs at hlast with hd
    cases hlast
    exact ⟨m, _, hm, ‹_›, hd, rfl⟩
  · cases hlast

/-- A number has no other plain numeral than the one it is written with. -/
theorem IsPlain.eq_digits (htwo : 2 ≤ base) (cs : List Char) (h : IsPlain base n cs) :
    cs = digits base n := by
  induction cs using List.reverseRecOn generalizing n with
  | nil => cases h.value
  | append_singleton cs c ih =>
    have hvalue := h.value
    rw [value?_of_ne_nil base _ (List.concat_ne_nil c cs)] at hvalue
    obtain ⟨m, d, hm, hc, hd, rfl⟩ := valueFrom_concat base n 0 cs c hvalue
    have hlast := eq_digitChar c d (h.lower c (List.mem_append_right _ List.mem_cons_self)) hc
    subst hlast
    cases cs with
    | nil =>
      cases hm
      rw [digits_of_lt base _ (by omega), Nat.zero_mul, Nat.zero_add, List.nil_append]
    | cons first rest =>
      have hnonzero : first ≠ '0' := by
        rintro rfl
        exact absurd (h.short rfl) (by simp)
      have hfront : first :: rest = digits base m := by
        refine ih m ⟨hm, fun c hc => h.lower c (List.mem_append_left _ hc), fun hzero => ?_⟩
        exact absurd (Option.some.inj hzero) hnonzero
      have hpos : m ≠ 0 := by
        rintro rfl
        rw [digits_of_lt base 0 (by omega)] at hfront
        exact hnonzero (List.cons.inj hfront).1
      have hle : base ≤ m * base + d := Nat.le_trans
        (Nat.le_mul_of_pos_left base (Nat.pos_of_ne_zero hpos)) (Nat.le_add_right _ d)
      have hquotient : (m * base + d) / base = m := by
        rw [Nat.mul_comm, Nat.mul_add_div (by omega), Nat.div_eq_of_lt hd, Nat.add_zero]
      have hremainder : (m * base + d) % base = d := by
        rw [Nat.mul_comm, Nat.mul_add_mod, Nat.mod_eq_of_lt hd]
      rw [digits_of_le base _ htwo hle, hquotient, hremainder, hfront]

end ConnectionLog.Numeral
