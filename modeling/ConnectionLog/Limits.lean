/-!
The limits of the numbers a log works with: identifiers are signed numbers of
64 bits, and counts of rows are unsigned numbers of 64 bits.
-/
namespace ConnectionLog

def minId : Int := -9223372036854775808

def maxId : Int := 9223372036854775807

def maxCount : Nat := 18446744073709551615

end ConnectionLog
