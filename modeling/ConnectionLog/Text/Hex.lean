import ConnectionLog.Numeral

/-!
Bytes written as two hexadecimal digits each, and read back from digits of either
case.
-/
namespace ConnectionLog.Hex

def encodeByte (b : UInt8) : List Char :=
  [Numeral.digitChar (b.toNat / 16), Numeral.digitChar (b.toNat % 16)]

def encode (bytes : List UInt8) : List Char := bytes.flatMap encodeByte

def decode? : List Char → Option (List UInt8)
  | [] => some []
  | high :: low :: rest =>
    match Numeral.digit? high, Numeral.digit? low with
    | some h, some l => (decode? rest).map (UInt8.ofNat (h * 16 + l) :: ·)
    | _, _ => none
  | _ => none

theorem decode?_encode (bytes : List UInt8) : decode? (encode bytes) = some bytes := by
  induction bytes with
  | nil => rfl
  | cons b rest ih =>
    have hb : b.toNat < 256 := b.toNat_lt
    have hhigh := Numeral.digit?_digitChar (b.toNat / 16) (by omega)
    have hlow := Numeral.digit?_digitChar (b.toNat % 16) (by omega)
    have hsum : b.toNat / 16 * 16 + b.toNat % 16 = b.toNat := by omega
    change decode? (_ :: _ :: encode rest) = _
    rw [decode?, hhigh, hlow]
    simp [ih, hsum]

end ConnectionLog.Hex
