/-!
Positional notation of numbers. `digits` writes a natural number without
leading zeros, lower-case letters standing for the digits above nine;
`value?` reads a numeral of either case back.
-/
namespace ConnectionLog.Numeral

def digitChar (d : Nat) : Char :=
  if d < 10 then Char.ofNat ('0'.toNat + d) else Char.ofNat ('a'.toNat + (d - 10))

/-- The last digit is the remainder by the base, the digits before it are those
of the quotient. A base below two has no positional notation. -/
def digits (base n : Nat) : List Char :=
  if _ : base < 2 ∨ n < base then [digitChar n]
  else digits base (n / base) ++ [digitChar (n % base)]
termination_by n
decreasing_by exact Nat.div_lt_self (by omega) (by omega)

def digit? (c : Char) : Option Nat :=
  if '0' ≤ c ∧ c ≤ '9' then some (c.toNat - '0'.toNat)
  else if 'a' ≤ c ∧ c ≤ 'f' then some (c.toNat - 'a'.toNat + 10)
  else if 'A' ≤ c ∧ c ≤ 'F' then some (c.toNat - 'A'.toNat + 10)
  else none

theorem digit?_digitChar : ∀ d < 16, digit? (digitChar d) = some d := by decide

def isDigit (base : Nat) (c : Char) : Bool :=
  match digit? c with
  | some d => d < base
  | none => false

def valueFrom (base : Nat) (acc : Nat) : List Char → Option Nat
  | [] => some acc
  | c :: rest =>
    match digit? c with
    | some d => if d < base then valueFrom base (acc * base + d) rest else none
    | none => none

/-- The number a numeral stands for; leading zeros are allowed, an empty
numeral is none. -/
def value? (base : Nat) : List Char → Option Nat
  | [] => none
  | cs => valueFrom base 0 cs

def decimal (n : Nat) : List Char := digits 10 n

def decimalInt : Int → List Char
  | .ofNat n => decimal n
  | .negSucc n => '-' :: decimal (n + 1)

def padded (width : Nat) (cs : List Char) : List Char :=
  List.replicate (width - cs.length) '0' ++ cs

def natText (n : Nat) : String := String.ofList (decimal n)

def intText (i : Int) : String := String.ofList (decimalInt i)

def unsigned? : List Char → Option Nat
  | '+' :: cs => value? 10 cs
  | cs => value? 10 cs

def signed? : List Char → Option Int
  | '-' :: cs => (value? 10 cs).map fun n => -(n : Int)
  | cs => (unsigned? cs).map fun n => (n : Int)

end ConnectionLog.Numeral
