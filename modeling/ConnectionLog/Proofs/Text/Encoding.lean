import ConnectionLog.Text.Utf8
import Mathlib.Data.List.Basic

/-!
What decoding accepts. Bytes are decoded to a text exactly if they are the encodings of its
characters one after the other, so the bytes that are refused are those of no text.
-/
namespace ConnectionLog.Utf8

theorem isContinuation_iff (b : UInt8) :
    isContinuation b = true ↔ 128 ≤ b.toNat ∧ b.toNat < 192 := by
  simp only [isContinuation, Bool.and_eq_true, decide_eq_true_eq, UInt8.le_iff_toNat_le]
  change 128 ≤ b.toNat ∧ b.toNat ≤ 191 ↔ _
  omega

theorem isSecondOfThree_iff (a b : UInt8) :
    isSecondOfThree a b = true ↔ 128 ≤ b.toNat ∧ b.toNat < 192 ∧
      (a.toNat = 224 → 160 ≤ b.toNat) ∧ (a.toNat = 237 → b.toNat < 160) := by
  simp only [isSecondOfThree, ← UInt8.toNat_inj]
  change (if a.toNat = 224 then _ else if a.toNat = 237 then _ else _) = true ↔ _
  split_ifs
  · simp only [Bool.and_eq_true, decide_eq_true_eq, UInt8.le_iff_toNat_le]
    change 160 ≤ b.toNat ∧ b.toNat ≤ 191 ↔ _
    omega
  · simp only [Bool.and_eq_true, decide_eq_true_eq, UInt8.le_iff_toNat_le]
    change 128 ≤ b.toNat ∧ b.toNat ≤ 159 ↔ _
    omega
  · rw [isContinuation_iff]
    omega

theorem isSecondOfFour_iff (a b : UInt8) :
    isSecondOfFour a b = true ↔ 128 ≤ b.toNat ∧ b.toNat < 192 ∧
      (a.toNat = 240 → 144 ≤ b.toNat) ∧ (a.toNat = 244 → b.toNat < 144) := by
  simp only [isSecondOfFour, ← UInt8.toNat_inj]
  change (if a.toNat = 240 then _ else if a.toNat = 244 then _ else _) = true ↔ _
  split_ifs
  · simp only [Bool.and_eq_true, decide_eq_true_eq, UInt8.le_iff_toNat_le]
    change 144 ≤ b.toNat ∧ b.toNat ≤ 191 ↔ _
    omega
  · simp only [Bool.and_eq_true, decide_eq_true_eq, UInt8.le_iff_toNat_le]
    change 128 ≤ b.toNat ∧ b.toNat ≤ 143 ↔ _
    omega
  · rw [isContinuation_iff]
    omega

theorem toNat_lt (c : Char) : c.toNat < 1114112 := by
  have hvalid : c.toNat.isValidChar := c.valid
  unfold Nat.isValidChar at hvalid
  omega

variable (c : Char) (a b d e : UInt8)

theorem encode_one_iff :
    String.utf8EncodeChar c = [a] ↔ c.toNat < 128 ∧ a.toNat = c.toNat := by
  unfold String.utf8EncodeChar
  change (if c.toNat ≤ 127 then [UInt8.ofNat c.toNat] else _) = _ ↔ _
  split_ifs with h
  · rw [List.singleton_inj, ← UInt8.toNat_inj, UInt8.toNat_ofNat']
    omega
  all_goals
    simp only [List.cons.injEq, reduceCtorEq, and_false, false_iff]
    omega

theorem encode_two_iff :
    String.utf8EncodeChar c = [a, b] ↔ 128 ≤ c.toNat ∧ c.toNat < 2048 ∧
      a.toNat = c.toNat / 64 + 192 ∧ b.toNat = c.toNat % 64 + 128 := by
  unfold String.utf8EncodeChar
  change (if c.toNat ≤ 127 then _ else if c.toNat ≤ 2047 then
    [UInt8.ofNat (c.toNat / 64 % 32 + 192), UInt8.ofNat (c.toNat % 64 + 128)] else _) = _ ↔ _
  split_ifs
  · simp only [List.cons.injEq, reduceCtorEq, and_false, false_iff]
    omega
  · simp only [List.cons.injEq, and_true, ← UInt8.toNat_inj, UInt8.toNat_ofNat']
    omega
  all_goals
    simp only [List.cons.injEq, reduceCtorEq, and_false, false_iff]
    omega

theorem encode_three_iff :
    String.utf8EncodeChar c = [a, b, d] ↔ 2048 ≤ c.toNat ∧ c.toNat < 65536 ∧
      a.toNat = c.toNat / 4096 + 224 ∧ b.toNat = c.toNat / 64 % 64 + 128 ∧
      d.toNat = c.toNat % 64 + 128 := by
  unfold String.utf8EncodeChar
  change (if c.toNat ≤ 127 then _ else if c.toNat ≤ 2047 then _ else if c.toNat ≤ 65535 then
    [UInt8.ofNat (c.toNat / 4096 % 16 + 224), UInt8.ofNat (c.toNat / 64 % 64 + 128),
      UInt8.ofNat (c.toNat % 64 + 128)] else _) = _ ↔ _
  split_ifs
  · simp only [List.cons.injEq, reduceCtorEq, and_false, false_iff]
    omega
  · simp only [List.cons.injEq, reduceCtorEq, and_false, false_iff]
    omega
  · simp only [List.cons.injEq, and_true, ← UInt8.toNat_inj, UInt8.toNat_ofNat']
    omega
  · simp only [List.cons.injEq, reduceCtorEq, and_false, false_iff]
    omega

theorem encode_four_iff :
    String.utf8EncodeChar c = [a, b, d, e] ↔ 65536 ≤ c.toNat ∧
      a.toNat = c.toNat / 262144 + 240 ∧ b.toNat = c.toNat / 4096 % 64 + 128 ∧
      d.toNat = c.toNat / 64 % 64 + 128 ∧ e.toNat = c.toNat % 64 + 128 := by
  have hlt := toNat_lt c
  unfold String.utf8EncodeChar
  change (if c.toNat ≤ 127 then _ else if c.toNat ≤ 2047 then _ else if c.toNat ≤ 65535 then _
    else [UInt8.ofNat (c.toNat / 262144 % 8 + 240), UInt8.ofNat (c.toNat / 4096 % 64 + 128),
      UInt8.ofNat (c.toNat / 64 % 64 + 128), UInt8.ofNat (c.toNat % 64 + 128)]) = _ ↔ _
  split_ifs
  · simp only [List.cons.injEq, reduceCtorEq, and_false, false_iff]
    omega
  · simp only [List.cons.injEq, reduceCtorEq, and_false, false_iff]
    omega
  · simp only [List.cons.injEq, reduceCtorEq, and_false, false_iff]
    omega
  · simp only [List.cons.injEq, and_true, ← UInt8.toNat_inj, UInt8.toNat_ofNat']
    omega

/-- A character takes one to four bytes. -/
theorem encode_shape :
    (∃ a, String.utf8EncodeChar c = [a]) ∨ (∃ a b, String.utf8EncodeChar c = [a, b]) ∨
      (∃ a b d, String.utf8EncodeChar c = [a, b, d]) ∨
      ∃ a b d e, String.utf8EncodeChar c = [a, b, d, e] := by
  fun_cases String.utf8EncodeChar c
  · exact .inl ⟨_, rfl⟩
  · exact .inr (.inl ⟨_, _, rfl⟩)
  · exact .inr (.inr (.inl ⟨_, _, _, rfl⟩))
  · exact .inr (.inr (.inr ⟨_, _, _, _, rfl⟩))

theorem leadsOne_iff : a < 0x80 ↔ a.toNat < 128 := UInt8.lt_iff_toNat_lt

theorem isBetween_iff (low high : UInt8) :
    (low ≤ a && a ≤ high) = true ↔ low.toNat ≤ a.toNat ∧ a.toNat ≤ high.toNat := by
  simp only [Bool.and_eq_true, decide_eq_true_eq, UInt8.le_iff_toNat_le]

theorem leadsTwo_iff : (0xC2 ≤ a && a ≤ 0xDF) = true ↔ 194 ≤ a.toNat ∧ a.toNat ≤ 223 :=
  isBetween_iff a 0xC2 0xDF

theorem leadsThree_iff : (0xE0 ≤ a && a ≤ 0xEF) = true ↔ 224 ≤ a.toNat ∧ a.toNat ≤ 239 :=
  isBetween_iff a 0xE0 0xEF

theorem leadsFour_iff : (0xF0 ≤ a && a ≤ 0xF4) = true ↔ 240 ≤ a.toNat ∧ a.toNat ≤ 244 :=
  isBetween_iff a 0xF0 0xF4

/-- A character is decoded from its encoding, whatever follows. -/
theorem decodeFrom_encode (offset : Nat) (rest : List UInt8) :
    ∃ next, decodeFrom offset (String.utf8EncodeChar c ++ rest) =
      (decodeFrom next rest).map (c :: ·) := by
  have hvalid : c.toNat.isValidChar := c.valid
  unfold Nat.isValidChar at hvalid
  rcases encode_shape c with ⟨a, h⟩ | ⟨a, b, h⟩ | ⟨a, b, d, h⟩ | ⟨a, b, d, e, h⟩
  · obtain ⟨hlt, ha⟩ := (encode_one_iff c a).mp h
    have hone : a < 0x80 := (leadsOne_iff a).mpr (by omega)
    refine ⟨offset + 1, ?_⟩
    rw [h, List.singleton_append, decodeFrom.eq_def]
    simp only [hone, if_true, ha, Char.ofNat_toNat]
  · obtain ⟨hge, hlt, ha, hb⟩ := (encode_two_iff c a b).mp h
    have hone : ¬ a < 0x80 := by
      rw [leadsOne_iff]
      omega
    have htwo := (leadsTwo_iff a).mpr (by omega)
    have hsecond := (isContinuation_iff b).mpr (by omega)
    have hnumber : a.toNat % 32 * 64 + payload b = c.toNat := by
      unfold payload
      omega
    refine ⟨offset + 2, ?_⟩
    rw [h, List.cons_append, List.singleton_append, decodeFrom.eq_def]
    simp only [hone, htwo, hsecond, hnumber, Char.ofNat_toNat, if_true, if_false,
      Bool.not_true, Bool.false_eq_true]
  · obtain ⟨hge, hlt, ha, hb, hd⟩ := (encode_three_iff c a b d).mp h
    have hone : ¬ a < 0x80 := by
      rw [leadsOne_iff]
      omega
    have htwo : ¬ (0xC2 ≤ a && a ≤ 0xDF) = true := by
      rw [leadsTwo_iff]
      omega
    have hthree := (leadsThree_iff a).mpr (by omega)
    have hsecond := (isSecondOfThree_iff a b).mpr (by omega)
    have hthird := (isContinuation_iff d).mpr (by omega)
    have hnumber : a.toNat % 16 * 4096 + payload b * 64 + payload d = c.toNat := by
      unfold payload
      omega
    refine ⟨offset + 3, ?_⟩
    rw [h, List.cons_append, List.cons_append, List.singleton_append, decodeFrom.eq_def]
    simp only [hone, htwo, hthree, hsecond, hthird, hnumber, Char.ofNat_toNat, if_true, if_false,
      Bool.not_true, Bool.false_eq_true]
  · obtain ⟨hge, ha, hb, hd, he⟩ := (encode_four_iff c a b d e).mp h
    have hone : ¬ a < 0x80 := by
      rw [leadsOne_iff]
      omega
    have htwo : ¬ (0xC2 ≤ a && a ≤ 0xDF) = true := by
      rw [leadsTwo_iff]
      omega
    have hthree : ¬ (0xE0 ≤ a && a ≤ 0xEF) = true := by
      rw [leadsThree_iff]
      omega
    have hfour := (leadsFour_iff a).mpr (by omega)
    have hsecond := (isSecondOfFour_iff a b).mpr (by omega)
    have hthird := (isContinuation_iff d).mpr (by omega)
    have hfourth := (isContinuation_iff e).mpr (by omega)
    have hnumber : a.toNat % 8 * 262144 + payload b * 4096 + payload d * 64 + payload e =
        c.toNat := by
      unfold payload
      omega
    refine ⟨offset + 4, ?_⟩
    rw [h, List.cons_append, List.cons_append, List.cons_append, List.singleton_append,
      decodeFrom.eq_def]
    simp only [hone, htwo, hthree, hfour, hsecond, hthird, hfourth, hnumber, Char.ofNat_toNat,
      if_true, if_false, Bool.not_true, Bool.false_eq_true]

/-- A character goes in front of what is read from the rest: the bytes that go in front must be
the encoding of the character with its number. -/
theorem append_eq_encode (number : Nat) (hvalid : number.isValidChar) (first rest : List UInt8)
    (result : Except Fault (List Char)) (cs : List Char)
    (hfirst : ∀ c : Char, c.toNat = number → String.utf8EncodeChar c = first)
    (hrest : ∀ cs', result = .ok cs' → rest = cs'.flatMap String.utf8EncodeChar)
    (h : result.map (Char.ofNat number :: ·) = .ok cs) :
    first ++ rest = cs.flatMap String.utf8EncodeChar := by
  have hnumber : (Char.ofNat number).toNat = number := by
    rw [Char.ofNat, dif_pos hvalid]
    rfl
  cases result with
  | error fault => cases h
  | ok cs' =>
    cases h
    rw [List.flatMap_cons, hfirst _ hnumber, hrest cs' rfl]

/-- Nothing but encodings is decoded: each branch that goes on has seen the encoding of the
character it puts in front. -/
theorem eq_encode_of_decodeFrom (offset : Nat) (bytes : List UInt8) (cs : List Char)
    (h : decodeFrom offset bytes = .ok cs) : bytes = cs.flatMap String.utf8EncodeChar := by
  fun_induction decodeFrom offset bytes generalizing cs with
  | case1 =>
    cases h
    rfl
  | case2 offset a rest hone ih =>
    rw [leadsOne_iff] at hone
    refine append_eq_encode a.toNat (by unfold Nat.isValidChar; omega) [a] rest _ cs ?_ ih h
    intro c hc
    exact (encode_one_iff c a).mpr (by omega)
  | case5 offset a hone htwo b rest hsecond ih =>
    rw [leadsTwo_iff] at htwo
    simp only [Bool.not_eq_true', Bool.not_eq_false, isContinuation_iff] at hsecond
    unfold payload at h
    refine append_eq_encode _ (by unfold Nat.isValidChar; omega) [a, b] rest _ cs ?_ ih h
    intro c hc
    exact (encode_two_iff c a b).mpr (by omega)
  | case10 offset a hone htwo hthree b hsecond d rest hthird ih =>
    rw [leadsThree_iff] at hthree
    simp only [Bool.not_eq_true', Bool.not_eq_false, isSecondOfThree_iff] at hsecond
    simp only [Bool.not_eq_true', Bool.not_eq_false, isContinuation_iff] at hthird
    unfold payload at h
    refine append_eq_encode _ (by unfold Nat.isValidChar; omega) [a, b, d] rest _ cs ?_ ih h
    intro c hc
    exact (encode_three_iff c a b d).mpr (by omega)
  | case17 offset a hone htwo hthree hfour b hsecond d hthird e rest hfourth ih =>
    rw [leadsFour_iff] at hfour
    simp only [Bool.not_eq_true', Bool.not_eq_false, isSecondOfFour_iff] at hsecond
    simp only [Bool.not_eq_true', Bool.not_eq_false, isContinuation_iff] at hthird hfourth
    unfold payload at h
    refine append_eq_encode _ (by unfold Nat.isValidChar; omega) [a, b, d, e] rest _ cs ?_ ih h
    intro c hc
    exact (encode_four_iff c a b d e).mpr (by omega)
  | _ => cases h

/-- Encoded characters are decoded again. -/
theorem decodeFrom_flatMap (offset : Nat) (cs : List Char) :
    decodeFrom offset (cs.flatMap String.utf8EncodeChar) = .ok cs := by
  induction cs generalizing offset with
  | nil => rfl
  | cons c cs ih =>
    obtain ⟨next, hnext⟩ := decodeFrom_encode c offset (cs.flatMap String.utf8EncodeChar)
    rw [List.flatMap_cons, hnext, ih next]
    rfl

def bytesOf (text : String) : List UInt8 := text.toList.flatMap String.utf8EncodeChar

/-- Bytes are decoded to a text exactly if it is encoded in them. -/
theorem decode_eq_ok_iff (bytes : List UInt8) (text : String) :
    decode bytes = .ok text ↔ bytes = bytesOf text := by
  constructor
  · intro h
    unfold decode at h
    cases hchars : decodeFrom 0 bytes with
    | error fault =>
      rw [hchars] at h
      cases h
    | ok cs =>
      rw [hchars] at h
      cases h
      rw [bytesOf, String.toList_ofList]
      exact eq_encode_of_decodeFrom 0 bytes cs hchars
  · rintro rfl
    rw [decode, bytesOf, decodeFrom_flatMap]
    exact congrArg Except.ok String.ofList_toList

end ConnectionLog.Utf8
