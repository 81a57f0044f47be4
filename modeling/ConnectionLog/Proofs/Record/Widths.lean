import ConnectionLog.Record.Connection
import Mathlib.Algebra.Ring.Int.Defs
import Mathlib.Data.List.Basic

/-!
What decoding a record loses. A connection has room for the low bits of the numbers of a
record, for the sixteen first bytes of its addresses of the sixth version and for all of the
rest, so records are decoded to the same connection exactly if they agree there.
-/
namespace ConnectionLog

theorem ofInt_eq_iff_uint8 (a b : Int) :
    UInt8.ofInt a = UInt8.ofInt b ↔ a % 2 ^ 8 = b % 2 ^ 8 := by
  rw [UInt8.ofInt, UInt8.ofInt, ← UInt8.toNat_inj, UInt8.toNat_ofNat', UInt8.toNat_ofNat']
  omega

theorem ofInt_eq_iff_uint16 (a b : Int) :
    UInt16.ofInt a = UInt16.ofInt b ↔ a % 2 ^ 16 = b % 2 ^ 16 := by
  rw [UInt16.ofInt, UInt16.ofInt, ← UInt16.toNat_inj, UInt16.toNat_ofNat', UInt16.toNat_ofNat']
  omega

theorem ofInt_eq_iff_uint32 (a b : Int) :
    UInt32.ofInt a = UInt32.ofInt b ↔ a % 2 ^ 32 = b % 2 ^ 32 := by
  rw [UInt32.ofInt, UInt32.ofInt, ← UInt32.toNat_inj, UInt32.toNat_ofNat', UInt32.toNat_ofNat']
  omega

/-- Reasons keep their codes, known or not. -/
theorem Reason.ofCode_inj (a b : Int) : ofCode a = ofCode b ↔ a = b := by
  constructor
  · intro h
    have hcode := congrArg code h
    rwa [code_ofCode, code_ofCode] at hcode
  · exact congrArg ofCode

namespace Ipv6

/-- Bytes that do not differ among the first sixteen, where what is missing counts as zero. -/
def Alike (bytes bytes' : List UInt8) : Prop :=
  ∀ i < 16, bytes.getD i 0 = bytes'.getD i 0

instance (bytes bytes' : List UInt8) : Decidable (Alike bytes bytes') :=
  inferInstanceAs (Decidable (∀ i < 16, _))

theorem getElem_octets_ofBytes (bytes : List UInt8) (i : Nat)
    (h : i < (ofBytes bytes).octets.length) : (ofBytes bytes).octets[i] = bytes.getD i 0 := by
  have hi : i < 16 := by rwa [(ofBytes bytes).length_octets] at h
  simp only [ofBytes, List.getElem_take, List.getD_eq_getElem?_getD]
  by_cases hin : i < bytes.length
  · rw [List.getElem_append_left hin, List.getElem?_eq_getElem hin, Option.getD_some]
  · rw [List.getElem_append_right (by omega), List.getElem_replicate,
      List.getElem?_eq_none (by omega), Option.getD_none]

/-- Addresses are equal if their bytes do not differ among the first sixteen. -/
theorem ofBytes_eq_iff (bytes bytes' : List UInt8) :
    ofBytes bytes = ofBytes bytes' ↔ Alike bytes bytes' := by
  have hlen := (ofBytes bytes).length_octets
  have hlen' := (ofBytes bytes').length_octets
  constructor
  · intro h i hi
    rw [← getElem_octets_ofBytes bytes i (by omega), ← getElem_octets_ofBytes bytes' i (by omega)]
    simp only [h]
  · intro h
    have hoctets : (ofBytes bytes).octets = (ofBytes bytes').octets := by
      refine List.ext_getElem (by omega) fun i hi hi' => ?_
      rw [getElem_octets_ofBytes, getElem_octets_ofBytes]
      exact h i (by omega)
    generalize ofBytes bytes = a at hoctets
    generalize ofBytes bytes' = a' at hoctets
    cases a
    cases a'
    congr

end Ipv6

namespace Record

/-- Records that agree in all that a connection has room for. Of the two families of
addresses only the one of the records has to agree. -/
structure Agrees (r s : Record) : Prop where
  id : r.id = s.id
  appId : r.appId = s.appId
  time : r.time = s.time
  pid : r.pid % 2 ^ 32 = s.pid % 2 ^ 32
  reason : r.reason = s.reason
  blocked : r.blocked = s.blocked
  inherited : r.inherited = s.inherited
  inbound : r.inbound = s.inbound
  protocol : r.protocol % 2 ^ 8 = s.protocol % 2 ^ 8
  nearPort : r.nearPort % 2 ^ 16 = s.nearPort % 2 ^ 16
  farPort : r.farPort % 2 ^ 16 = s.farPort % 2 ^ 16
  family : r.isV6 = s.isV6
  v4 : r.isV6 = false → r.near4 % 2 ^ 32 = s.near4 % 2 ^ 32 ∧ r.far4 % 2 ^ 32 = s.far4 % 2 ^ 32
  v6 : r.isV6 = true → Ipv6.Alike r.near6 s.near6 ∧ Ipv6.Alike r.far6 s.far6
  path : r.path = s.path

def withUnused (r : Record) (near4 far4 : Int) (near6 far6 : List UInt8) : Record :=
  if r.isV6 then { r with near4, far4 } else { r with near6, far6 }

/-- Only the family that a record has decides about its addresses. -/
theorem endpoints_eq_iff (r s : Record) :
    r.endpoints = s.endpoints ↔ r.isV6 = s.isV6 ∧
      (r.isV6 = false →
        r.near4 % 2 ^ 32 = s.near4 % 2 ^ 32 ∧ r.far4 % 2 ^ 32 = s.far4 % 2 ^ 32) ∧
      (r.isV6 = true → Ipv6.Alike r.near6 s.near6 ∧ Ipv6.Alike r.far6 s.far6) := by
  unfold endpoints
  cases r.isV6 <;> cases s.isV6 <;>
    simp only [Bool.false_eq_true, if_false, if_true, reduceCtorEq, Endpoints.v4.injEq,
      Endpoints.v6.injEq, ofInt_eq_iff_uint32, Ipv6.ofBytes_eq_iff, forall_const,
      IsEmpty.forall_iff, true_and, and_true, false_and]

theorem endpoints_withUnused (r : Record) (near4 far4 : Int) (near6 far6 : List UInt8) :
    (r.withUnused near4 far4 near6 far6).endpoints = r.endpoints := by
  unfold withUnused endpoints
  cases r.isV6 <;> rfl

/-- Decoding tells records apart exactly by what a connection has room for, and by nothing
in the family of addresses that is not theirs. -/
theorem decode_eq_iff (r s : Record) :
    (r.decode = s.decode ↔ r.Agrees s) ∧
      ∀ near4 far4 near6 far6, (r.withUnused near4 far4 near6 far6).decode = r.decode := by
  constructor
  · simp only [decode, Connection.mk.injEq, ofInt_eq_iff_uint8, ofInt_eq_iff_uint16,
      ofInt_eq_iff_uint32, Reason.ofCode_inj, endpoints_eq_iff]
    constructor
    · rintro ⟨hid, happId, htime, hpid, hreason, hblocked, hinherited, hinbound, hprotocol,
        hnearPort, hfarPort, ⟨hfamily, hv4, hv6⟩, hpath⟩
      exact ⟨hid, happId, htime, hpid, hreason, hblocked, hinherited, hinbound, hprotocol,
        hnearPort, hfarPort, hfamily, hv4, hv6, hpath⟩
    · rintro ⟨hid, happId, htime, hpid, hreason, hblocked, hinherited, hinbound, hprotocol,
        hnearPort, hfarPort, hfamily, hv4, hv6, hpath⟩
      exact ⟨hid, happId, htime, hpid, hreason, hblocked, hinherited, hinbound, hprotocol,
        hnearPort, hfarPort, ⟨hfamily, hv4, hv6⟩, hpath⟩
  · intro near4 far4 near6 far6
    have hends := endpoints_withUnused r near4 far4 near6 far6
    simp only [decode, hends]
    unfold withUnused
    cases r.isV6 <;> rfl

end Record

end ConnectionLog
