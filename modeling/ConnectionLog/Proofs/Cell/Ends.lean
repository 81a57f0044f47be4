import ConnectionLog.Cell.Column
import ConnectionLog.Proofs.Address.Reading

/-!
The texts of the two ends of a connection, while names of hosts are not asked for. Such a text
is an address and a port, each in the one way it is spelled, and it is read back as both. So
no other end has the same text.
-/
namespace ConnectionLog

theorem Pieces.afterLast_append (sep : Char) (cs more : List Char) (h : sep ∉ more) :
    afterLast (· = sep) (cs ++ sep :: more) = more := by
  have hrest : ∀ c ∈ more.reverse, (!decide (c = sep)) = true := by
    intro c hc
    have hne : c ≠ sep := fun hsep => h (hsep ▸ List.mem_reverse.mp hc)
    simpa using hne
  rw [afterLast, List.reverse_append, List.reverse_cons, List.append_assoc, List.singleton_append,
    List.takeWhile_append_of_pos hrest, List.takeWhile_cons_of_neg (by simp), List.append_nil,
    List.reverse_reverse]

namespace View

open Numeral (IsPlain decimal value?)

def hostAddress? : List Char → Option Address
  | '[' :: rest => Address.ofChars? rest.dropLast
  | host => Address.ofChars? host

/-- The port stands behind the last colon, and an address of version six in brackets. -/
def readEnd? (text : String) : Option (Address × Nat) :=
  let port := Pieces.afterLast (· = ':') text.toList
  let host := text.toList.take (text.toList.length - (port.length + 1))
  match hostAddress? host, value? 10 port with
  | some address, some number => some (address, number)
  | _, _ => none

def hostChars (a : Address) (cs : List Char) : List Char :=
  if a.isV6 then '[' :: cs ++ [']'] else cs

/-- An address is read back from in front of a port. -/
theorem hostAddress?_hostChars (a : Address) (cs : List Char) (h : a.Spelled cs) :
    hostAddress? (hostChars a cs) = some a := by
  have hread := Address.ofChars?_of_spelled a cs h
  cases a with
  | v4 bits =>
    have hbracket : '[' ∉ cs := by
      cases h with
      | v4 _ octets _ hoctets hcs =>
        exact (Address.mem_dotted octets _ cs hoctets hcs).2 '[' (by decide) rfl
    change hostAddress? cs = some (.v4 bits)
    unfold hostAddress?
    split
    · exact absurd List.mem_cons_self hbracket
    · exact hread
  | v6 a =>
    change Address.ofChars? (cs ++ [']']).dropLast = some (.v6 a)
    rw [List.dropLast_concat, hread]

/-- Whatever is written by the rules is read as the address and the port it was written for. -/
theorem readEnd?_of_spelled (a : Address) (address port : List Char) (number : Nat)
    (haddress : a.Spelled address) (hport : IsPlain 10 number port) :
    readEnd? (String.ofList (hostChars a address ++ ':' :: port)) = some (a, number) := by
  have hcolon : ':' ∉ port := by
    rw [hport.eq_digits 10 number (by decide) port]
    exact Numeral.not_mem_digits 10 number (by decide) (by decide) ':' rfl
  have hlength : (hostChars a address ++ ':' :: port).length - (port.length + 1) =
      (hostChars a address).length := by
    rw [List.length_append, List.length_cons, Nat.add_sub_cancel]
  rw [readEnd?, String.toList_ofList, Pieces.afterLast_append ':' _ port hcolon, hlength,
    List.take_left' rfl, hostAddress?_hostChars a address haddress, hport.value]

theorem endText_unresolved (hosts : HostNames) (a : Address) (p : UInt16) :
    (⟨false, hosts⟩ : View).endText a p =
      String.ofList (hostChars a a.chars ++ ':' :: decimal p.toNat) := by
  have htext : (⟨false, hosts⟩ : View).hostText a = a.text := rfl
  rw [endText, htext, Address.text, Numeral.natText, hostChars]
  apply String.toList_injective
  cases a.isV6
  · simp
  · simp

/-- While names are not asked for, the text of an end is its address and its port, each
spelled as the rules say, and the rules leave no choice. It is read back as that end, so it is
the text of no other. -/
theorem endText_identifies (hosts : HostNames) (a : Address) (p : UInt16) :
    (∀ cs, a.Spelled cs ↔ a.text = String.ofList cs) ∧
    (∃ address port, a.Spelled address ∧ IsPlain 10 p.toNat port ∧
      (⟨false, hosts⟩ : View).endText a p = String.ofList (hostChars a address ++ ':' :: port)) ∧
    readEnd? ((⟨false, hosts⟩ : View).endText a p) = some (a, p.toNat) ∧
    ∀ (hosts' : HostNames) (b : Address) (q : UInt16),
      (⟨false, hosts⟩ : View).endText a p = (⟨false, hosts'⟩ : View).endText b q ↔
        a = b ∧ p = q := by
  have hread (hosts : HostNames) (a : Address) (p : UInt16) :
      readEnd? ((⟨false, hosts⟩ : View).endText a p) = some (a, p.toNat) := by
    rw [endText_unresolved]
    exact readEnd?_of_spelled a _ _ _ a.chars_spelled
      (Numeral.digits_isPlain 10 _ (by decide) (by decide))
  refine ⟨fun cs => ?_, ?_, hread hosts a p, fun hosts' b q => ⟨fun hsame => ?_, ?_⟩⟩
  · rw [Address.spelled_iff, Address.text, String.ofList_inj, eq_comm]
  · exact ⟨a.chars, _, a.chars_spelled, Numeral.digits_isPlain 10 _ (by decide) (by decide),
      endText_unresolved hosts a p⟩
  · have hsame' := (hread hosts a p).symm.trans (hsame ▸ hread hosts' b q)
    obtain ⟨haddress, hport⟩ := Prod.mk.inj (Option.some.inj hsame')
    exact ⟨haddress, UInt16.toNat_inj.mp hport⟩
  · rintro ⟨rfl, rfl⟩
    rw [endText_unresolved, endText_unresolved]

/-- An address of version four and the one that maps it are told apart. -/
example :
    let mapping := Ipv6.ofBytes [0, 0, 0, 0, 0, 0, 0, 0, 0, 0, 255, 255, 192, 0, 2, 1]
    (⟨false, HostNames.empty⟩ : View).endText (.v4 0xC0000201) 80 = "192.0.2.1:80" ∧
      (⟨false, HostNames.empty⟩ : View).endText (.v6 mapping) 80 = "[::ffff:192.0.2.1]:80" := by
  decide +kernel

end View

end ConnectionLog
