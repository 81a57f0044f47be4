import ConnectionLog.Proofs.Text.Numerals
import Mathlib.Algebra.Ring.Nat
import Mathlib.Data.List.Lex

/-!
Numerals filled up with zeros. They stand for the same number, and while the numbers fit into
the width their numerals are as long as each other and sorted as texts like the numbers.
-/
namespace ConnectionLog

/-- Texts are compared piece by piece while the pieces are equally long. -/
theorem append_lt_append_iff (cs cs' more more' : List Char) (hlength : cs.length = cs'.length) :
    cs ++ more < cs' ++ more' ↔ cs < cs' ∨ cs = cs' ∧ more < more' := by
  induction cs generalizing cs' with
  | nil =>
    rw [List.eq_nil_of_length_eq_zero hlength.symm]
    simp
  | cons c cs ih =>
    cases cs' with
    | nil => simp at hlength
    | cons c' cs' =>
      simp only [List.cons_append, List.cons_lt_cons_iff, List.cons.injEq,
        ih cs' (Nat.succ.inj hlength)]
      tauto

namespace Numeral

theorem not_mem_digits (base n : Nat) (htwo : 2 ≤ base) (hbase : base ≤ 16) (c : Char)
    (hc : isDigit base c = false) : c ∉ digits base n := by
  intro hmem
  rw [isDigit_of_mem_digits base n htwo hbase c hmem] at hc
  exact nomatch hc

theorem not_mem_padded (width n : Nat) (c : Char) (hc : isDigit 10 c = false) :
    c ∉ padded width (decimal n) := by
  intro hmem
  rcases List.mem_append.mp hmem with hmem | hmem
  · rw [List.eq_of_mem_replicate hmem] at hc
    exact absurd hc (by decide)
  · exact not_mem_digits 10 n (by decide) (by decide) c hc hmem

theorem valueFrom_replicate (base count : Nat) (cs : List Char) (hbase : 0 < base) :
    valueFrom base 0 (List.replicate count '0' ++ cs) = valueFrom base 0 cs := by
  induction count with
  | zero => rfl
  | succ count ih =>
    have hzero : digit? '0' = some 0 := by decide
    rw [List.replicate_succ, List.cons_append, valueFrom, hzero]
    simp only [hbase, if_true, Nat.zero_mul, Nat.add_zero, ih]

/-- Zeros in front do not change a number. -/
theorem value?_padded (width n : Nat) : value? 10 (padded width (decimal n)) = some n := by
  have hne : padded width (decimal n) ≠ [] :=
    List.append_ne_nil_of_right_ne_nil _ (digits_ne_nil 10 n)
  rw [value?_of_ne_nil 10 _ hne, padded, valueFrom_replicate 10 _ _ (by decide)]
  exact valueFrom_digits 10 n (by decide) (by decide)

theorem padded_inj (width n n' : Nat) :
    padded width (decimal n) = padded width (decimal n') ↔ n = n' := by
  constructor
  · intro h
    have hvalue := congrArg (value? 10) h
    rw [value?_padded, value?_padded] at hvalue
    exact Option.some.inj hvalue
  · rintro rfl
    rfl

/-- The last figure is the last digit, and those before it are the figures of the quotient. -/
theorem padded_succ (width n : Nat) (hwidth : 0 < width) :
    padded (width + 1) (decimal n) = padded width (decimal (n / 10)) ++ [digitChar (n % 10)] := by
  unfold padded decimal
  by_cases h : n < 10
  · rw [digits_of_lt 10 n h, Nat.div_eq_of_lt h, digits_of_lt 10 0 (by decide), Nat.mod_eq_of_lt h]
    have hzeros : List.replicate (width - 1) '0' ++ ['0'] = List.replicate width '0' := by
      rw [← List.replicate_succ', Nat.sub_add_cancel hwidth]
    change List.replicate (width + 1 - 1) '0' ++ _ = List.replicate (width - 1) '0' ++ ['0'] ++ _
    rw [hzeros, Nat.add_sub_cancel]
  · rw [digits_of_le 10 n (by decide) (by omega), List.length_append, List.length_singleton,
      Nat.add_sub_add_right, List.append_assoc]

theorem length_padded (width n : Nat) (hwidth : 0 < width) (h : n < 10 ^ width) :
    (padded width (decimal n)).length = width := by
  induction width, hwidth using Nat.le_induction generalizing n with
  | base =>
    rw [decimal, digits_of_lt 10 n (by omega)]
    rfl
  | succ width hwidth ih =>
    rw [padded_succ width n hwidth, List.length_append, ih (n / 10) (by omega)]
    rfl

theorem digitChar_lt_iff : ∀ d < 10, ∀ d' < 10, [digitChar d] < [digitChar d'] ↔ d < d' := by
  decide

/-- Numerals of one width stand in the order of their numbers. -/
theorem padded_lt_iff (width n n' : Nat) (hwidth : 0 < width) (h : n < 10 ^ width)
    (h' : n' < 10 ^ width) :
    padded width (decimal n) < padded width (decimal n') ↔ n < n' := by
  induction width, hwidth using Nat.le_induction generalizing n n' with
  | base =>
    rw [decimal, decimal, digits_of_lt 10 n (by omega), digits_of_lt 10 n' (by omega)]
    exact digitChar_lt_iff n (by omega) n' (by omega)
  | succ width hwidth ih =>
    have hquotient : n / 10 < 10 ^ width := by omega
    have hquotient' : n' / 10 < 10 ^ width := by omega
    have hsame := (length_padded width (n / 10) hwidth hquotient).trans
      (length_padded width (n' / 10) hwidth hquotient').symm
    have hlast := digitChar_lt_iff (n % 10) (Nat.mod_lt n (by decide)) (n' % 10)
      (Nat.mod_lt n' (by decide))
    rw [padded_succ width n hwidth, padded_succ width n' hwidth,
      append_lt_append_iff _ _ _ _ hsame, ih _ _ hquotient hquotient', padded_inj, hlast]
    omega

end Numeral

end ConnectionLog
