import ConnectionLog.Address.Text
import ConnectionLog.Proofs.Text.Numerals
import Mathlib.Algebra.Ring.Nat
import Mathlib.Data.List.Forall2

/-!
The rules by which addresses are spelled, told apart from how they are written: plain
numerals between dots or colons, the dotted end of a mapped address, and the first of the
longest runs of zero groups left out. An address is written by these rules, and they leave
no choice, so there is no other text that keeps to them.
-/
namespace ConnectionLog

theorem Pieces.joined_eq_intercalate (sep : List Char) (pieces : List (List Char)) :
    joined sep pieces = sep.intercalate pieces := by
  induction pieces with
  | nil => rfl
  | cons piece rest ih =>
    cases rest with
    | nil => exact List.intercalate_singleton.symm
    | cons next rest =>
      rw [List.intercalate_cons_cons, ← ih]
      rfl

namespace Numeral

def Written (base : Nat) (sep : Char) (numbers : List Nat) (cs : List Char) : Prop :=
  ∃ pieces, List.Forall₂ (IsPlain base) numbers pieces ∧ cs = [sep].intercalate pieces

/-- A number has one plain numeral, its digits. -/
theorem isPlain_iff (base n : Nat) (cs : List Char) (htwo : 2 ≤ base) (hbase : base ≤ 16) :
    IsPlain base n cs ↔ digits base n = cs :=
  ⟨fun h => (h.eq_digits base n htwo cs).symm, fun h => h ▸ digits_isPlain base n htwo hbase⟩

theorem written_iff (base : Nat) (sep : Char) (numbers : List Nat) (cs : List Char)
    (htwo : 2 ≤ base) (hbase : base ≤ 16) :
    Written base sep numbers cs ↔ cs = [sep].intercalate (numbers.map (digits base)) := by
  have hplain : IsPlain base = fun n cs => digits base n = cs :=
    funext₂ fun n cs => propext (isPlain_iff base n cs htwo hbase)
  have hpieces (pieces : List (List Char)) :
      List.Forall₂ (IsPlain base) numbers pieces ↔ numbers.map (digits base) = pieces := by
    rw [hplain, ← List.forall₂_map_left_iff (R := Eq), List.forall₂_eq_eq_eq]
  simp only [Written, hpieces, exists_eq_left']

end Numeral

namespace Address

open Numeral (Written written_iff)

structure IsOctets (octets : List Nat) (number : Nat) : Prop where
  length : octets.length = 4
  small : ∀ octet ∈ octets, octet < 256
  number_eq : octets.foldl (fun acc octet => acc * 256 + octet) 0 = number

/-- A number of 32 bits is made up by one list of octets only. -/
theorem isOctets_iff (octets : List Nat) (number : Nat) (h : number < 2 ^ 32) :
    IsOctets octets number ↔ octets = dottedOctets number := by
  constructor
  · rintro ⟨hlength, hsmall, rfl⟩
    match octets, hlength with
    | [a, b, c, d], _ =>
      simp only [List.forall_mem_cons] at hsmall
      simp only [List.foldl, dottedOctets, List.cons.injEq, and_true]
      omega
  · rintro rfl
    refine ⟨rfl, ?_, ?_⟩
    · simp only [dottedOctets, List.forall_mem_cons]
      refine ⟨?_, ?_, ?_, ?_, List.forall_mem_nil _⟩ <;> exact Nat.mod_lt _ (by decide)
    · simp only [dottedOctets, List.foldl]
      omega

def ZeroRun (groups : List Nat) (start count : Nat) : Prop :=
  ∀ i < count, groups[start + i]? = some 0

/-- There is no longer run of zero groups, and none of the same length before this one. -/
structure IsFirstLongest (groups : List Nat) (start count : Nat) : Prop where
  zero : ZeroRun groups start count
  first : ∀ start' count', ZeroRun groups start' count' →
    count' < count ∨ count' = count ∧ start ≤ start'

theorem zeroRun_cons_succ (group : Nat) (rest : List Nat) (start count : Nat) :
    ZeroRun (group :: rest) (start + 1) count ↔ ZeroRun rest start count := by
  simp only [ZeroRun, Nat.add_right_comm start 1, List.getElem?_cons_succ]

theorem zeroRun_cons (group : Nat) (rest : List Nat) :
    zeroRun (group :: rest) = if group = 0 then zeroRun rest + 1 else 0 := by
  unfold zeroRun
  rw [List.takeWhile_cons]
  simp only [decide_eq_true_eq]
  split <;> rfl

/-- The run at the start, however much of it. -/
theorem zeroRun_start_iff (groups : List Nat) (count : Nat) :
    ZeroRun groups 0 count ↔ count ≤ zeroRun groups := by
  induction groups generalizing count with
  | nil =>
    refine ⟨fun h => Nat.le_of_not_lt fun hpos => ?_, fun h i hi => ?_⟩
    · cases h 0 hpos
    · exact absurd (Nat.lt_of_lt_of_le hi h) (Nat.not_lt_zero i)
  | cons group rest ih =>
    cases count with
    | zero => exact iff_of_true (fun i hi => absurd hi (Nat.not_lt_zero i)) (Nat.zero_le _)
    | succ count =>
      have hstep : ZeroRun (group :: rest) 0 (count + 1) ↔ group = 0 ∧ ZeroRun rest 0 count := by
        constructor
        · intro h
          refine ⟨Option.some.inj (h 0 (Nat.succ_pos count)), fun i hi => ?_⟩
          have hnext := h (i + 1) (Nat.succ_lt_succ hi)
          rwa [← Nat.add_assoc, List.getElem?_cons_succ] at hnext
        · rintro ⟨rfl, h⟩ i hi
          cases i with
          | zero => rfl
          | succ i => exact h i (Nat.lt_of_succ_lt_succ hi)
      rw [hstep, ih, zeroRun_cons]
      split
      · omega
      · omega

/-- The run that is found is the first of the longest ones. -/
theorem longestZeroRun_spec (groups : List Nat) :
    IsFirstLongest groups (longestZeroRun groups).1 (longestZeroRun groups).2 := by
  induction groups with
  | nil =>
    refine ⟨fun i hi => absurd hi (Nat.not_lt_zero i), fun start count h => ?_⟩
    cases count with
    | zero => exact .inr ⟨rfl, Nat.zero_le start⟩
    | succ count => cases h 0 (Nat.succ_pos count)
  | cons group rest ih =>
    -- A run starts either here, where `zeroRun` is the longest, or in the rest.
    have hhere (count : Nat) : ZeroRun (group :: rest) 0 count ↔ count ≤ zeroRun (group :: rest) :=
      zeroRun_start_iff (group :: rest) count
    have hlater (start count : Nat) (h : ZeroRun (group :: rest) (start + 1) count) :=
      ih.first start count ((zeroRun_cons_succ group rest start count).mp h)
    rw [longestZeroRun]
    split
    · refine ⟨(hhere _).mpr (Nat.le_refl _), fun start count h => ?_⟩
      cases start with
      | zero =>
        have hle := (hhere count).mp h
        simp only
        omega
      | succ start =>
        have hrest := hlater start count h
        simp only
        omega
    · refine ⟨(zeroRun_cons_succ group rest _ _).mpr ih.zero, fun start count h => ?_⟩
      cases start with
      | zero =>
        have hle := (hhere count).mp h
        simp only
        omega
      | succ start =>
        have hrest := hlater start count h
        simp only
        omega

/-- A list has one first longest run only. -/
theorem IsFirstLongest.eq {groups : List Nat} {start count start' count' : Nat}
    (h : IsFirstLongest groups start count) (h' : IsFirstLongest groups start' count') :
    start = start' ∧ count = count' := by
  have hle := h.first start' count' h'.zero
  have hge := h'.first start count h.zero
  omega

def MapsV4 (groups : List Nat) (hi lo : Nat) : Prop := groups = [0, 0, 0, 0, 0, 0xFFFF, hi, lo]

theorem mapped?_eq_some_iff (groups : List Nat) (hi lo : Nat) :
    mapped? groups = some (hi, lo) ↔ MapsV4 groups hi lo := by
  unfold mapped? MapsV4
  split
  · simp
  · rename_i hother
    simpa using hother hi lo

theorem mapped?_eq_none_iff (groups : List Nat) :
    mapped? groups = none ↔ ∀ hi lo, ¬ MapsV4 groups hi lo := by
  simp only [← mapped?_eq_some_iff, Option.eq_none_iff_forall_ne_some, Prod.forall, ne_eq]

inductive Spelled : Address → List Char → Prop
  | v4 (bits : UInt32) (octets : List Nat) (cs : List Char)
      (hoctets : IsOctets octets bits.toNat) (hcs : Written 10 '.' octets cs) :
      Spelled (.v4 bits) cs
  | mapped (a : Ipv6) (hi lo : Nat) (octets : List Nat) (cs : List Char)
      (hmaps : MapsV4 a.groups hi lo) (hoctets : IsOctets octets (hi * 65536 + lo))
      (hcs : Written 10 '.' octets cs) :
      Spelled (.v6 a) ("::ffff:".toList ++ cs)
  | whole (a : Ipv6) (cs : List Char) (hmaps : ∀ hi lo, ¬ MapsV4 a.groups hi lo)
      (hruns : ∀ start, ¬ ZeroRun a.groups start 2) (hcs : Written 16 ':' a.groups cs) :
      Spelled (.v6 a) cs
  | elided (a : Ipv6) (start count : Nat) (front back : List Char)
      (hmaps : ∀ hi lo, ¬ MapsV4 a.groups hi lo)
      (hrun : IsFirstLongest a.groups start count) (htwo : 2 ≤ count)
      (hfront : Written 16 ':' (a.groups.take start) front)
      (hback : Written 16 ':' (a.groups.drop (start + count)) back) :
      Spelled (.v6 a) (front ++ "::".toList ++ back)

theorem written_dotted_iff (octets : List Nat) (cs : List Char) :
    Written 10 '.' octets cs ↔ cs = dotted octets := by
  rw [written_iff 10 '.' _ _ (by decide) (by decide), dotted, Pieces.joined_eq_intercalate]
  rfl

theorem written_hexGroups_iff (groups : List Nat) (cs : List Char) :
    Written 16 ':' groups cs ↔ cs = hexGroups groups := by
  rw [written_iff 16 ':' _ _ (by decide) (by decide), hexGroups, Pieces.joined_eq_intercalate]

/-- An address that maps none of version four is spelled by the rules. -/
theorem compressed_spelled (a : Ipv6) (hmaps : ∀ hi lo, ¬ MapsV4 a.groups hi lo) :
    Spelled (.v6 a) (compressed a.groups) := by
  have hrun := longestZeroRun_spec a.groups
  rw [compressed]
  split
  · exact .elided a _ _ _ _ hmaps hrun ‹_› ((written_hexGroups_iff _ _).mpr rfl)
      ((written_hexGroups_iff _ _).mpr rfl)
  · refine .whole a _ hmaps (fun start hzero => ?_) ((written_hexGroups_iff _ _).mpr rfl)
    have hlength := hrun.first start 2 hzero
    omega

end Address

namespace Ipv6

theorem pairs_small (octets : List UInt8) : ∀ group ∈ pairs octets, group < 65536 := by
  fun_induction pairs octets with
  | case1 hi lo rest ih =>
    have hhi := hi.toNat_lt
    have hlo := lo.toNat_lt
    exact List.forall_mem_cons.mpr ⟨by omega, ih⟩
  | case2 => exact List.forall_mem_nil _

theorem length_groups (a : Ipv6) : a.groups.length = 8 := by
  match a with
  | ⟨[_, _, _, _, _, _, _, _, _, _, _, _, _, _, _, _], _⟩ => rfl

end Ipv6

namespace Address

open Numeral (Written written_iff)

/-- The two ways to take the octets of a mapped address apart. -/
theorem dottedOctets_groups (hi lo : Nat) (hhi : hi < 65536) (hlo : lo < 65536) :
    dottedOctets (hi * 65536 + lo) = [hi / 256, hi % 256, lo / 256, lo % 256] := by
  simp only [dottedOctets, List.cons.injEq, and_true]
  omega

theorem MapsV4.small {a : Ipv6} {hi lo : Nat} (h : MapsV4 a.groups hi lo) :
    hi < 65536 ∧ lo < 65536 := by
  have hsmall : ∀ group ∈ [0, 0, 0, 0, 0, 0xFFFF, hi, lo], group < 65536 :=
    h ▸ Ipv6.pairs_small a.octets
  simp only [List.forall_mem_cons] at hsmall
  obtain ⟨-, -, -, -, -, -, hhi, hlo, -⟩ := hsmall
  exact ⟨hhi, hlo⟩

theorem MapsV4.isOctets_iff {a : Ipv6} {hi lo : Nat} (h : MapsV4 a.groups hi lo)
    (octets : List Nat) :
    IsOctets octets (hi * 65536 + lo) ↔ octets = [hi / 256, hi % 256, lo / 256, lo % 256] := by
  obtain ⟨hhi, hlo⟩ := h.small
  rw [Address.isOctets_iff _ _ (by omega), dottedOctets_groups hi lo hhi hlo]

/-- The text of an address is spelled by the rules. -/
theorem chars_spelled (a : Address) : Spelled a a.chars := by
  cases a with
  | v4 bits =>
    exact .v4 bits _ _ ((isOctets_iff _ _ bits.toNat_lt).mpr rfl) ((written_dotted_iff _ _).mpr rfl)
  | v6 a =>
    rw [chars, groupsText]
    cases hmapped : mapped? a.groups with
    | none => exact compressed_spelled a ((mapped?_eq_none_iff a.groups).mp hmapped)
    | some pair =>
      obtain ⟨hi, lo⟩ := pair
      have hmaps := (mapped?_eq_some_iff a.groups hi lo).mp hmapped
      exact .mapped a hi lo _ _ hmaps ((hmaps.isOctets_iff _).mpr rfl)
        ((written_dotted_iff _ _).mpr rfl)

/-- The rules leave no choice. -/
theorem Spelled.eq_chars (a : Address) (cs : List Char) (h : Spelled a cs) : cs = a.chars := by
  cases h with
  | v4 bits octets _ hoctets hcs =>
    rw [(isOctets_iff _ _ bits.toNat_lt).mp hoctets] at hcs
    exact (written_dotted_iff _ _).mp hcs
  | mapped a hi lo octets cs hmaps hoctets hcs =>
    rw [(hmaps.isOctets_iff _).mp hoctets] at hcs
    rw [chars, groupsText, (mapped?_eq_some_iff _ _ _).mpr hmaps, (written_dotted_iff _ _).mp hcs]
  | whole a _ hmaps hruns hcs =>
    have hshort : ¬ 2 ≤ (longestZeroRun a.groups).2 := fun htwo =>
      hruns _ fun i hi => (longestZeroRun_spec a.groups).zero i (Nat.lt_of_lt_of_le hi htwo)
    rw [chars, groupsText, (mapped?_eq_none_iff _).mpr hmaps]
    simp only [compressed, if_neg hshort]
    exact (written_hexGroups_iff _ _).mp hcs
  | elided a start count front back hmaps hrun htwo hfront hback =>
    obtain ⟨rfl, rfl⟩ := hrun.eq (longestZeroRun_spec a.groups)
    rw [chars, groupsText, (mapped?_eq_none_iff _).mpr hmaps]
    simp only [compressed, if_pos htwo]
    rw [(written_hexGroups_iff _ _).mp hfront, (written_hexGroups_iff _ _).mp hback]
    rfl

/-- The rules leave one spelling of an address. -/
theorem spelled_iff (a : Address) (cs : List Char) : Spelled a cs ↔ cs = a.chars :=
  ⟨Spelled.eq_chars a cs, fun h => h ▸ chars_spelled a⟩

end Address

end ConnectionLog
