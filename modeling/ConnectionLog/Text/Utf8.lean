import ConnectionLog.Numeral

/-!
The encoding of texts in bytes. Decoding stops at the first sequence that is not
the shortest encoding of a character and says where it starts and how many bytes
of it could still have begun one.
-/
namespace ConnectionLog.Utf8

/-- Where decoding stopped. A sequence cut off by the end of the text has no
length. -/
structure Fault where
  offset : Nat
  length : Option Nat
deriving DecidableEq

def Fault.message (f : Fault) : String :=
  match f.length with
  | some n =>
    "invalid utf-8 sequence of " ++ Numeral.natText n ++ " bytes from index " ++
      Numeral.natText f.offset
  | none => "incomplete utf-8 byte sequence from index " ++ Numeral.natText f.offset

def isContinuation (b : UInt8) : Bool := 0x80 ≤ b && b ≤ 0xBF

/-- Whether a byte may come second after a first one that starts three. Short
encodings and surrogates are ruled out here. -/
def isSecondOfThree (first b : UInt8) : Bool :=
  if first = 0xE0 then 0xA0 ≤ b && b ≤ 0xBF
  else if first = 0xED then 0x80 ≤ b && b ≤ 0x9F
  else isContinuation b

/-- Whether a byte may come second after a first one that starts four. Short
encodings and numbers beyond the last character are ruled out here. -/
def isSecondOfFour (first b : UInt8) : Bool :=
  if first = 0xF0 then 0x90 ≤ b && b ≤ 0xBF
  else if first = 0xF4 then 0x80 ≤ b && b ≤ 0x8F
  else isContinuation b

def payload (b : UInt8) : Nat := b.toNat % 64

def decodeFrom (offset : Nat) : List UInt8 → Except Fault (List Char)
  | [] => .ok []
  | a :: rest =>
    if a < 0x80 then
      (decodeFrom (offset + 1) rest).map (Char.ofNat a.toNat :: ·)
    else if 0xC2 ≤ a && a ≤ 0xDF then
      match rest with
      | [] => .error ⟨offset, none⟩
      | b :: rest =>
        if !isContinuation b then .error ⟨offset, some 1⟩
        else
          (decodeFrom (offset + 2) rest).map
            (Char.ofNat (a.toNat % 32 * 64 + payload b) :: ·)
    else if 0xE0 ≤ a && a ≤ 0xEF then
      match rest with
      | [] => .error ⟨offset, none⟩
      | b :: rest =>
        if !isSecondOfThree a b then .error ⟨offset, some 1⟩
        else
          match rest with
          | [] => .error ⟨offset, none⟩
          | c :: rest =>
            if !isContinuation c then .error ⟨offset, some 2⟩
            else
              (decodeFrom (offset + 3) rest).map
                (Char.ofNat (a.toNat % 16 * 4096 + payload b * 64 + payload c) :: ·)
    else if 0xF0 ≤ a && a ≤ 0xF4 then
      match rest with
      | [] => .error ⟨offset, none⟩
      | b :: rest =>
        if !isSecondOfFour a b then .error ⟨offset, some 1⟩
        else
          match rest with
          | [] => .error ⟨offset, none⟩
          | c :: rest =>
            if !isContinuation c then .error ⟨offset, some 2⟩
            else
              match rest with
              | [] => .error ⟨offset, none⟩
              | d :: rest =>
                if !isContinuation d then .error ⟨offset, some 3⟩
                else
                  (decodeFrom (offset + 4) rest).map
                    (Char.ofNat
                      (a.toNat % 8 * 262144 + payload b * 4096 + payload c * 64 +
                        payload d) :: ·)
    else .error ⟨offset, some 1⟩

def decode (bytes : List UInt8) : Except Fault String :=
  (decodeFrom 0 bytes).map String.ofList

end ConnectionLog.Utf8
