import ConnectionLog.Address.Basic
import ConnectionLog.Numeral
import ConnectionLog.Text.Pieces

/-!
The written form of addresses. Version four is four decimal octets between
dots. Version six is eight hexadecimal groups between colons, where the longest
run of two or more zero groups, the first of equally long ones, is left out
between two colons; an address that maps one of version four ends in the dotted
form.
-/
namespace ConnectionLog.Address

open Pieces (joined)

def dottedOctets (bits : Nat) : List Nat :=
  [bits / 16777216 % 256, bits / 65536 % 256, bits / 256 % 256, bits % 256]

def dotted (octets : List Nat) : List Char :=
  joined ['.'] (octets.map Numeral.decimal)

def zeroRun (groups : List Nat) : Nat := (groups.takeWhile (· = 0)).length

/-- Start and length of the longest run of zero groups, the first of equals. -/
def longestZeroRun : List Nat → Nat × Nat
  | [] => (0, 0)
  | group :: rest =>
    let later := longestZeroRun rest
    let here := zeroRun (group :: rest)
    if later.2 ≤ here then (0, here) else (later.1 + 1, later.2)

def hexGroups (groups : List Nat) : List Char :=
  joined [':'] (groups.map (Numeral.digits 16))

/-- Eight groups, the longest run of zeros left out if it has two or more. -/
def compressed (groups : List Nat) : List Char :=
  let run := longestZeroRun groups
  if 2 ≤ run.2 then
    hexGroups (groups.take run.1) ++ [':', ':'] ++ hexGroups (groups.drop (run.1 + run.2))
  else hexGroups groups

def mapped? : List Nat → Option (Nat × Nat)
  | [0, 0, 0, 0, 0, 65535, hi, lo] => some (hi, lo)
  | _ => none

def groupsText (groups : List Nat) : List Char :=
  match mapped? groups with
  | some (hi, lo) => "::ffff:".toList ++ dotted [hi / 256, hi % 256, lo / 256, lo % 256]
  | none => compressed groups

def chars : Address → List Char
  | .v4 bits => dotted (dottedOctets bits.toNat)
  | .v6 a => groupsText a.groups

def text (a : Address) : String := String.ofList a.chars

end ConnectionLog.Address
