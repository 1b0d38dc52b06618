/-!
# Integers of 64 bits

The readers admit integers and exponents of 64 bits with a sign. Before its value is looked at, a
numeral is converted, and that takes a bounded number of digits, leading noughts included.
-/
namespace ThriftIdl

/-- The least integer of 64 bits: -2^63. -/
def leastInteger : Int := -9223372036854775808

/-- The greatest integer of 64 bits: 2^63 - 1. -/
def greatestInteger : Int := 9223372036854775807

/-- Whether an integer has 64 bits. -/
def fitsInteger (n : Int) : Bool := leastInteger ≤ n && n ≤ greatestInteger

/-- How many digits a numeral has at most that is converted to an integer. -/
def digitLimit : Nat := 4300

end ThriftIdl
