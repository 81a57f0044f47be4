/-!
Internet addresses of both families, and the pair of addresses of a connection,
which are always of one family.
-/
namespace ConnectionLog

/-- An address of the sixth version: sixteen octets, the most significant first. -/
structure Ipv6 where
  octets : List UInt8
  length_octets : octets.length = 16
deriving DecidableEq

namespace Ipv6

/-- Reads an address from bytes of any number: missing ones count as zero, those
after the sixteenth are left out. -/
def ofBytes (bytes : List UInt8) : Ipv6 :=
  ⟨(bytes ++ List.replicate 16 0).take 16, by simp⟩

def pairs : List UInt8 → List Nat
  | hi :: lo :: rest => (hi.toNat * 256 + lo.toNat) :: pairs rest
  | _ => []

def groups (a : Ipv6) : List Nat := pairs a.octets

end Ipv6

inductive Address where
  | v4 (bits : UInt32)
  | v6 (address : Ipv6)
deriving DecidableEq

def Address.isV6 : Address → Bool
  | .v4 _ => false
  | .v6 _ => true

inductive Endpoints where
  | v4 (near far : UInt32)
  | v6 (near far : Ipv6)
deriving DecidableEq

namespace Endpoints

def isV6 : Endpoints → Bool
  | v4 .. => false
  | v6 .. => true

def near : Endpoints → Address
  | v4 a _ => .v4 a
  | v6 a _ => .v6 a

def far : Endpoints → Address
  | v4 _ a => .v4 a
  | v6 _ a => .v6 a

end Endpoints

end ConnectionLog
