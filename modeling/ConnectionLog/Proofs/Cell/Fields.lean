import ConnectionLog.Cell.Column
import Mathlib.Data.List.Basic

/-!
Texts that may stand in a field of a table, which ends with a tab or a line feed. Whatever
the program writes itself is such a text: numbers, addresses, times and fixed words. Names
of applications and of hosts are taken as they come, so it is left to them.
-/
namespace ConnectionLog

def IsField (cs : List Char) : Prop := '\t' ∉ cs ∧ '\n' ∉ cs

instance (cs : List Char) : Decidable (IsField cs) :=
  inferInstanceAs (Decidable (_ ∧ _))

theorem isField_append (cs more : List Char) :
    IsField (cs ++ more) ↔ IsField cs ∧ IsField more := by
  simp only [IsField, List.mem_append, not_or]
  exact and_and_and_comm

theorem isField_cons (c : Char) (cs : List Char) :
    IsField (c :: cs) ↔ (c ≠ '\t' ∧ c ≠ '\n') ∧ IsField cs := by
  simp only [IsField, List.mem_cons, not_or, ne_eq, eq_comm (a := c)]
  exact and_and_and_comm

theorem isField_joined (sep : List Char) (pieces : List (List Char)) (hsep : IsField sep)
    (h : ∀ piece ∈ pieces, IsField piece) : IsField (Pieces.joined sep pieces) := by
  fun_induction Pieces.joined sep pieces with
  | case1 => decide
  | case2 piece => exact h piece List.mem_cons_self
  | case3 piece rest hrest ih =>
    have hhead := h piece List.mem_cons_self
    have htail := ih fun piece' hpiece' => h piece' (List.mem_cons_of_mem piece hpiece')
    simp only [isField_append, hhead, hsep, htail, and_self]

namespace Numeral

theorem digitChar_ne : ∀ d < 16, digitChar d ≠ '\t' ∧ digitChar d ≠ '\n' := by decide

theorem isField_digits (base n : Nat) (htwo : 2 ≤ base) (hbase : base ≤ 16) :
    IsField (digits base n) := by
  fun_induction digits base n with
  | case1 n h => exact (isField_cons _ _).mpr ⟨digitChar_ne n (by omega), by decide⟩
  | case2 n h ih =>
    have hlast := Nat.mod_lt n (show 0 < base by omega)
    refine (isField_append _ _).mpr ⟨ih, (isField_cons _ _).mpr ⟨?_, by decide⟩⟩
    exact digitChar_ne _ (by omega)

theorem isField_decimal (n : Nat) : IsField (decimal n) :=
  isField_digits 10 n (by decide) (by decide)

theorem isField_decimalInt (i : Int) : IsField (decimalInt i) := by
  cases i with
  | ofNat n => exact isField_decimal n
  | negSucc n => exact (isField_cons _ _).mpr ⟨by decide, isField_decimal (n + 1)⟩

theorem isField_padded (width : Nat) (cs : List Char) (h : IsField cs) :
    IsField (padded width cs) := by
  refine (isField_append _ _).mpr ⟨⟨?_, ?_⟩, h⟩
  · exact fun hmem => absurd (List.eq_of_mem_replicate hmem) (by decide)
  · exact fun hmem => absurd (List.eq_of_mem_replicate hmem) (by decide)

theorem isField_natText (n : Nat) : IsField (natText n).toList := by
  rw [natText, String.toList_ofList]
  exact isField_decimal n

end Numeral

namespace Address

theorem isField_dotted (octets : List Nat) : IsField (dotted octets) := by
  refine isField_joined _ _ (by decide) fun piece hpiece => ?_
  obtain ⟨octet, -, rfl⟩ := List.mem_map.mp hpiece
  exact Numeral.isField_decimal octet

theorem isField_hexGroups (groups : List Nat) : IsField (hexGroups groups) := by
  refine isField_joined _ _ (by decide) fun piece hpiece => ?_
  obtain ⟨group, -, rfl⟩ := List.mem_map.mp hpiece
  exact Numeral.isField_digits 16 group (by decide) (by decide)

theorem isField_groupsText (groups : List Nat) : IsField (groupsText groups) := by
  unfold groupsText
  split
  · exact (isField_append _ _).mpr ⟨by decide, isField_dotted _⟩
  · unfold compressed
    simp only
    split
    · simp only [isField_append, isField_hexGroups, true_and, and_true]
      decide
    · exact isField_hexGroups groups

/-- No address has a tab or a line feed in its text. -/
theorem isField_text (a : Address) : IsField a.text.toList := by
  rw [text, String.toList_ofList]
  cases a with
  | v4 bits => exact isField_dotted _
  | v6 address => exact isField_groupsText _

end Address

namespace Calendar

theorem isField_twoDigits (n : Nat) : IsField (twoDigits n) :=
  Numeral.isField_padded 2 _ (Numeral.isField_decimal n)

theorem isField_yearChars (year : Int) : IsField (yearChars year) := by
  have hfigures := Numeral.isField_padded 4 _ (Numeral.isField_decimal year.natAbs)
  unfold yearChars
  simp only
  split
  · exact (isField_cons _ _).mpr ⟨by decide, hfigures⟩
  · split
    · exact (isField_cons _ _).mpr ⟨by decide, hfigures⟩
    · exact hfigures

theorem isField_momentText (m : Moment) : IsField m.text.toList := by
  rw [Moment.text, String.toList_ofList]
  unfold Moment.chars Date.chars Moment.clockChars
  simp only [List.cons_append, List.append_assoc, isField_append, isField_cons, isField_twoDigits,
    isField_yearChars, true_and, and_true]
  decide

end Calendar

theorem isField_protocolName (number : UInt8) : IsField (protocolName number).toList := by
  unfold protocolName
  split_ifs
  all_goals first | decide | exact Numeral.isField_natText _

/-- A host is written by its name only where names are shown and it has one. -/
theorem isField_hostText_iff (v : View) (address : Address) :
    IsField (v.hostText address).toList ↔
      ∀ name, v.resolve = true → v.hosts.name? address.text = some name →
        IsField name.toList := by
  unfold View.hostText
  cases hresolve : v.resolve with
  | false => simp [Address.isField_text]
  | true =>
    cases hname : v.hosts.name? address.text with
    | none => simp [Address.isField_text]
    | some name => simp

/-- Host and port fit into a field exactly if the host does. -/
theorem isField_endText_iff (v : View) (address : Address) (port : UInt16) :
    IsField (v.endText address port).toList ↔ IsField (v.hostText address).toList := by
  have hport : IsField (":" ++ Numeral.natText port.toNat).toList := by
    rw [String.toList_append, isField_append]
    exact ⟨by decide, Numeral.isField_natText _⟩
  unfold View.endText
  simp only
  rw [String.append_assoc, String.toList_append, isField_append, and_iff_left hport]
  split
  · rw [String.toList_append, String.toList_append, isField_append, isField_append]
    constructor
    · exact fun h => h.1.2
    · exact fun h => ⟨⟨by decide, h⟩, by decide⟩
  · exact Iff.rfl

theorem Reason.isField_text (r : Reason) : IsField r.text.toList := by
  cases r with
  | unknown code =>
    change IsField "Unknown".toList
    decide
  | _ => decide

namespace Connection

theorem isField_reasonText (c : Connection) : IsField c.reasonText.toList := by
  unfold reasonText
  split
  · rw [String.toList_append, isField_append]
    exact ⟨c.reason.isField_text, by decide⟩
  · exact c.reason.isField_text

/-- What is taken as it comes fits into fields: the name of the application, and the names of
both hosts where they are shown. -/
structure InFields (c : Connection) (v : View) : Prop where
  program : IsField (AppName.ofPath c.path).toList
  hosts : ∀ address ∈ [c.endpoints.near, c.endpoints.far], ∀ name, v.resolve = true →
    v.hosts.name? address.text = some name → IsField name.toList

/-- All cells of a connection fit into fields exactly if these do. -/
theorem inFields_iff (c : Connection) (v : View) :
    c.InFields v ↔
      ∀ column ∈ Column.all, IsField ((c.columnText? v column).getD "").toList := by
  have hnear := isField_endText_iff v c.endpoints.near c.nearPort
  have hfar := isField_endText_iff v c.endpoints.far c.farPort
  rw [isField_hostText_iff] at hnear hfar
  constructor
  · rintro ⟨hprogram, hhosts⟩ column -
    cases column with
    | program => exact hprogram
    | processId => exact Numeral.isField_natText _
    | protocol => exact isField_protocolName _
    | nearEnd => exact hnear.mpr (hhosts _ (by simp))
    | farEnd => exact hfar.mpr (hhosts _ (by simp))
    | direction =>
      simp only [columnText?]
      split <;> decide
    | action =>
      simp only [columnText?]
      split <;> decide
    | reason => exact c.isField_reasonText
    | time =>
      simp only [columnText?]
      cases c.moment? with
      | none => decide
      | some m => exact Calendar.isField_momentText m
  · intro h
    refine ⟨h .program (by decide), ?_⟩
    intro address haddress
    rcases List.mem_cons.mp haddress with rfl | hrest
    · exact hnear.mp (h .nearEnd (by decide))
    · rw [List.mem_singleton.mp hrest]
      exact hfar.mp (h .farEnd (by decide))

end Connection

end ConnectionLog
