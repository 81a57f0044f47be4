import ConnectionLog.Proofs.Address.Spelling
import ConnectionLog.Proofs.Text.Figures

/-!
Reading addresses back from their text. A text with a colon is split at the colons; where
groups are left out there is an empty piece, and what is missing of eight groups is zero.
Whatever is spelled by the rules is read as the address it was spelled for, so no two
addresses share a spelling.
-/
namespace ConnectionLog

namespace Ipv6

def ofGroups (groups : List Nat) : Ipv6 :=
  ofBytes (groups.flatMap fun group => [UInt8.ofNat (group / 256), UInt8.ofNat (group % 256)])

theorem flatMap_pairs (octets : List UInt8) (h : octets.length % 2 = 0) :
    (pairs octets).flatMap
      (fun group => [UInt8.ofNat (group / 256), UInt8.ofNat (group % 256)]) = octets := by
  fun_induction pairs octets with
  | case1 hi lo rest ih =>
    have hlo := lo.toNat_lt
    have heven : rest.length % 2 = 0 := by
      rw [List.length_cons, List.length_cons] at h
      omega
    have hquotient : (hi.toNat * 256 + lo.toNat) / 256 = hi.toNat := by omega
    have hremainder : (hi.toNat * 256 + lo.toNat) % 256 = lo.toNat := by omega
    rw [List.flatMap_cons, hquotient, hremainder, UInt8.ofNat_toNat, UInt8.ofNat_toNat,
      ih heven]
    rfl
  | case2 octets hother =>
    cases octets with
    | nil => rfl
    | cons hi rest =>
      cases rest with
      | nil => cases h
      | cons lo rest => exact (hother hi lo rest rfl).elim

/-- An address is put together again from its groups. -/
theorem ofGroups_groups (a : Ipv6) : ofGroups a.groups = a := by
  have hoctets := flatMap_pairs a.octets (by rw [a.length_octets])
  obtain ⟨octets, hlength⟩ := a
  simp only [ofGroups, groups, ofBytes, hoctets, mk.injEq]
  exact List.take_left' hlength

end Ipv6

namespace Address

open Numeral (Written written_iff value? digits)

def ofDotted? (cs : List Char) : Option Nat :=
  match (cs.splitOn '.').mapM (value? 10) with
  | some [a, b, c, d] => some (((a * 256 + b) * 256 + c) * 256 + d)
  | _ => none

/-- A piece between colons is a group, or two of them if it is dotted. -/
def pieceGroups? (piece : List Char) : Option (List Nat) :=
  if '.' ∈ piece then (ofDotted? piece).map fun number => [number / 65536, number % 65536]
  else (value? 16 piece).map fun group => [group]

def piecesGroups? (pieces : List (List Char)) : Option (List Nat) :=
  (pieces.mapM pieceGroups?).map List.flatten

/-- The pieces before the first empty one and those after the last are the groups that are
written, and zeros fill up to eight in between. -/
def groups? (cs : List Char) : Option (List Nat) :=
  let pieces := cs.splitOn ':'
  if [] ∈ pieces then
    match piecesGroups? (pieces.takeWhile (· ≠ [])),
      piecesGroups? (pieces.reverse.takeWhile (· ≠ [])).reverse with
    | some front, some back =>
      some (front ++ List.replicate (8 - (front.length + back.length)) 0 ++ back)
    | _, _ => none
  else piecesGroups? pieces

def ofChars? (cs : List Char) : Option Address :=
  if ':' ∈ cs then (groups? cs).map fun groups => .v6 (.ofGroups groups)
  else (ofDotted? cs).map fun number => .v4 (UInt32.ofNat number)

theorem mapM_digits (base : Nat) (numbers : List Nat) (htwo : 2 ≤ base) (hbase : base ≤ 16) :
    (numbers.map (digits base)).mapM (value? base) = some numbers := by
  have hread : value? base ∘ digits base = fun n => pure (id n) :=
    funext fun n => Numeral.value?_digits base n htwo hbase
  rw [List.mapM_map, hread, List.mapM_pure, List.map_id]
  rfl

/-- Four octets between dots are read as the number they make up. -/
theorem ofDotted?_written (octets : List Nat) (number : Nat) (cs : List Char)
    (hoctets : IsOctets octets number) (hcs : Written 10 '.' octets cs) :
    ofDotted? cs = some number := by
  obtain ⟨hlength, -, rfl⟩ := hoctets
  rw [(written_iff 10 '.' _ _ (by decide) (by decide)).mp hcs, ofDotted?,
    List.splitOn_intercalate, mapM_digits 10 octets (by decide) (by decide)]
  · match octets, hlength with
    | [a, b, c, d], _ => simp [List.foldl]
  · intro piece hpiece
    obtain ⟨n, -, rfl⟩ := List.mem_map.mp hpiece
    exact Numeral.not_mem_digits 10 n (by decide) (by decide) '.' rfl
  · match octets, hlength with
    | [a, b, c, d], _ => simp

theorem piecesGroups?_digits (groups : List Nat) :
    piecesGroups? (groups.map (digits 16)) = some groups := by
  have hread : pieceGroups? ∘ digits 16 = fun n => pure [n] := by
    funext n
    have hdot := Numeral.not_mem_digits 16 n (by decide) (by decide) '.' rfl
    rw [Function.comp_apply, pieceGroups?, if_neg hdot,
      Numeral.value?_digits 16 n (by decide) (by decide)]
    rfl
  rw [piecesGroups?, List.mapM_map, hread, List.mapM_pure]
  exact congrArg some (List.flatMap_singleton' groups)

def ArePieces (pieces : List (List Char)) : Prop :=
  ∀ piece ∈ pieces, piece ≠ [] ∧ ':' ∉ piece

theorem arePieces_digits (groups : List Nat) : ArePieces (groups.map (digits 16)) := by
  intro piece hpiece
  obtain ⟨n, -, rfl⟩ := List.mem_map.mp hpiece
  exact ⟨Numeral.digits_ne_nil 16 n, Numeral.not_mem_digits 16 n (by decide) (by decide) ':' rfl⟩

def orEmpty (pieces : List (List Char)) : List (List Char) :=
  if pieces = [] then [[]] else pieces

/-- Splitting at colons gives back the pieces, and one empty piece where there are none. -/
theorem splitOn_pieces (pieces : List (List Char)) (h : ArePieces pieces) :
    ([':'].intercalate pieces).splitOn ':' = orEmpty pieces := by
  unfold orEmpty
  split
  · rename_i hnil
    rw [hnil, List.intercalate_nil, List.splitOn_nil]
  · exact List.splitOn_intercalate ':' (fun piece hpiece => (h piece hpiece).2) ‹_›

theorem takeWhile_orEmpty (pieces more : List (List Char)) (h : ∀ piece ∈ pieces, piece ≠ []) :
    (orEmpty pieces ++ [] :: more).takeWhile (· ≠ []) = pieces := by
  have hstop (more : List (List Char)) :
      ([] :: more).takeWhile (fun piece : List Char => decide (piece ≠ [])) = [] :=
    List.takeWhile_cons_of_neg (by simp)
  unfold orEmpty
  split
  · rename_i hnil
    rw [hnil]
    exact hstop ([] :: more)
  · rw [List.takeWhile_append_of_pos fun piece hpiece => by simpa using h piece hpiece,
      hstop more, List.append_nil]

theorem reverse_orEmpty (pieces : List (List Char)) :
    (orEmpty pieces).reverse = orEmpty pieces.reverse := by
  unfold orEmpty
  split
  · rename_i hnil
    rw [hnil]
    rfl
  · rw [if_neg (by simpa using ‹_›)]

/-- Where zeros are left out, one empty piece stands between the groups in front and those behind.
-/
theorem splitOn_elided (front back : List (List Char)) (hfront : ArePieces front)
    (hback : ArePieces back) :
    ([':'].intercalate front ++ "::".toList ++ [':'].intercalate back).splitOn ':' =
      orEmpty front ++ [] :: orEmpty back := by
  have hempty := List.splitOn_append_cons_self (a := ':') [] ([':'].intercalate back)
  rw [List.splitOn_nil, splitOn_pieces back hback] at hempty
  change ([':'].intercalate front ++ [':', ':'] ++ _).splitOn ':' = _
  rw [List.append_assoc, List.cons_append, List.splitOn_append_cons_self,
    splitOn_pieces front hfront]
  exact congrArg (orEmpty front ++ ·) hempty

/-- The pieces on both sides of the empty one are found, from either end. -/
theorem groups?_elided (front back : List (List Char)) (groups groups' : List Nat)
    (hfront : ArePieces front) (hback : ArePieces back)
    (hgroups : piecesGroups? front = some groups) (hgroups' : piecesGroups? back = some groups') :
    groups? ([':'].intercalate front ++ "::".toList ++ [':'].intercalate back) =
      some (groups ++ List.replicate (8 - (groups.length + groups'.length)) 0 ++ groups') := by
  have htake : (orEmpty front ++ [] :: orEmpty back).takeWhile (· ≠ []) = front :=
    takeWhile_orEmpty front _ fun piece hpiece => (hfront piece hpiece).1
  have htake' : ((orEmpty front ++ [] :: orEmpty back).reverse.takeWhile (· ≠ [])).reverse =
      back := by
    rw [List.reverse_append, List.reverse_cons, List.append_assoc, reverse_orEmpty,
      List.singleton_append, takeWhile_orEmpty, List.reverse_reverse]
    exact fun piece hpiece => (hback piece (List.mem_reverse.mp hpiece)).1
  have hmem : [] ∈ orEmpty front ++ [] :: orEmpty back :=
    List.mem_append_right _ List.mem_cons_self
  rw [groups?, splitOn_elided front back hfront hback]
  simp only [hmem, if_true, htake, htake', hgroups, hgroups']

/-- Without an empty piece nothing is left out. -/
theorem groups?_whole (pieces : List (List Char)) (h : ArePieces pieces) (hne : pieces ≠ []) :
    groups? ([':'].intercalate pieces) = piecesGroups? pieces := by
  have hmem : [] ∉ pieces := fun hnil => (h [] hnil).1 rfl
  rw [groups?, splitOn_pieces pieces h, orEmpty, if_neg hne]
  simp only [hmem, if_false]

/-- A run of zeros stands between what is in front of it and what follows. -/
theorem ZeroRun.eq_append {groups : List Nat} {start count : Nat} (h : ZeroRun groups start count) :
    groups = groups.take start ++ List.replicate count 0 ++ groups.drop (start + count) := by
  have hzeros : (groups.drop start).take count = List.replicate count 0 := by
    apply List.ext_getElem?
    intro i
    by_cases hi : i < count
    · rw [List.getElem?_take_of_lt hi, List.getElem?_drop, h i hi, List.getElem?_replicate,
        if_pos hi]
    · rw [List.getElem?_take_eq_none (by omega), List.getElem?_replicate, if_neg hi]
  calc
    groups = groups.take start ++ groups.drop start := (List.take_append_drop start _).symm
    _ = groups.take start ++ ((groups.drop start).take count ++ (groups.drop start).drop count) :=
      congrArg (groups.take start ++ ·) (List.take_append_drop count _).symm
    _ = groups.take start ++ List.replicate count 0 ++ groups.drop (start + count) := by
      rw [hzeros, List.drop_drop, List.append_assoc]

theorem ZeroRun.le_length {groups : List Nat} {start count : Nat} (h : ZeroRun groups start count)
    (hpos : 0 < count) : start + count ≤ groups.length := by
  obtain ⟨hlt, -⟩ := List.getElem?_eq_some_iff.mp (h (count - 1) (by omega))
  omega

/-- Dots and digits are all there is in a dotted text. -/
theorem mem_dotted (octets : List Nat) (number : Nat) (cs : List Char)
    (hoctets : IsOctets octets number) (hcs : Written 10 '.' octets cs) :
    '.' ∈ cs ∧ ∀ c ≠ '.', Numeral.isDigit 10 c = false → c ∉ cs := by
  rw [(written_iff 10 '.' _ _ (by decide) (by decide)).mp hcs]
  match octets, hoctets.length with
  | [a, b, c, d], _ =>
    refine ⟨by simp [List.intercalate_cons_cons], fun other hother hdigit => ?_⟩
    have hnot (n : Nat) : other ∉ digits 10 n :=
      Numeral.not_mem_digits 10 n (by decide) (by decide) other hdigit
    simp [List.intercalate_cons_cons, hother, hnot]

/-- The groups of a mapped address, read from its dotted end. -/
theorem groups?_mapped (hi lo : Nat) (octets : List Nat) (cs : List Char) (hlo : lo < 65536)
    (hoctets : IsOctets octets (hi * 65536 + lo)) (hcs : Written 10 '.' octets cs) :
    groups? ("::ffff:".toList ++ cs) = some [0, 0, 0, 0, 0, 0xFFFF, hi, lo] := by
  obtain ⟨hdot, hother⟩ := mem_dotted octets _ cs hoctets hcs
  have hpieces : ArePieces ["ffff".toList, cs] := by
    have hne : cs ≠ [] := List.ne_nil_of_mem hdot
    exact List.forall_mem_cons.mpr
      ⟨⟨by decide, by decide⟩, List.forall_mem_singleton.mpr ⟨hne, hother ':' (by decide) rfl⟩⟩
  have hread : piecesGroups? ["ffff".toList, cs] = some [0xFFFF, hi, lo] := by
    have hffff : pieceGroups? "ffff".toList = some [0xFFFF] := by decide
    have hquotient : (hi * 65536 + lo) / 65536 = hi := by omega
    have hremainder : (hi * 65536 + lo) % 65536 = lo := by omega
    have hend : pieceGroups? cs = some [hi, lo] := by
      rw [pieceGroups?, if_pos hdot, ofDotted?_written octets _ cs hoctets hcs, Option.map_some,
        hquotient, hremainder]
    rw [piecesGroups?, List.mapM_cons, hffff, List.mapM_cons, hend, List.mapM_nil]
    rfl
  have hgroups := groups?_elided [] ["ffff".toList, cs] [] [0xFFFF, hi, lo]
    (List.forall_mem_nil _) hpieces rfl hread
  rw [List.intercalate_nil, List.intercalate_cons_cons, List.intercalate_singleton] at hgroups
  exact hgroups

/-- Whatever is spelled by the rules is read as the address it is spelled for. -/
theorem ofChars?_of_spelled (a : Address) (cs : List Char) (h : Spelled a cs) :
    ofChars? cs = some a := by
  cases h with
  | v4 bits octets _ hoctets hcs =>
    obtain ⟨-, hother⟩ := mem_dotted octets _ cs hoctets hcs
    have hcolon : ':' ∉ cs := hother ':' (by decide) rfl
    rw [ofChars?, if_neg hcolon, ofDotted?_written octets _ cs hoctets hcs, Option.map_some,
      UInt32.ofNat_toNat]
  | mapped a hi lo octets cs hmaps hoctets hcs =>
    have hcolon : ':' ∈ "::ffff:".toList ++ cs := List.mem_append_left _ (by decide)
    rw [ofChars?, if_pos hcolon, groups?_mapped hi lo octets cs hmaps.small.2 hoctets hcs, ← hmaps,
      Option.map_some, Ipv6.ofGroups_groups]
  | whole a _ hmaps hruns hcs =>
    have hpieces := arePieces_digits a.groups
    have hlength := a.length_groups
    rw [written_iff 16 ':' _ _ (by decide) (by decide)] at hcs
    have hcolon : ':' ∈ cs := by
      rw [hcs]
      match a.groups, hlength with
      | group :: group' :: rest, _ => simp [List.intercalate_cons_cons]
    have hne : a.groups.map (digits 16) ≠ [] := by
      intro hnil
      rw [List.map_eq_nil_iff.mp hnil] at hlength
      cases hlength
    rw [ofChars?, if_pos hcolon, hcs, groups?_whole _ hpieces hne, piecesGroups?_digits,
      Option.map_some, Ipv6.ofGroups_groups]
  | elided a start count front back hmaps hrun htwo hfront hback =>
    have hbound := hrun.zero.le_length (by omega)
    rw [a.length_groups] at hbound
    have hzeros : 8 - ((a.groups.take start).length + (a.groups.drop (start + count)).length) =
        count := by
      rw [List.length_take, List.length_drop, a.length_groups]
      omega
    have hcolon : ':' ∈ front ++ "::".toList ++ back :=
      List.mem_append_left _ (List.mem_append_right _ (by decide))
    rw [written_iff 16 ':' _ _ (by decide) (by decide)] at hfront hback
    have hgroups := groups?_elided _ _ _ _ (arePieces_digits (a.groups.take start))
      (arePieces_digits (a.groups.drop (start + count))) (piecesGroups?_digits _)
      (piecesGroups?_digits _)
    rw [hzeros, ← hrun.zero.eq_append, ← hfront, ← hback] at hgroups
    rw [ofChars?, if_pos hcolon, hgroups, Option.map_some, Ipv6.ofGroups_groups]

end Address

end ConnectionLog
