/-!
# Whole numbers in decimal

Numbers are written without leading zeros, a negative one after a minus sign, and read by the
value of their digits. Main statement: `value_digits`, the digits written for a number have that
number as their value.
-/
namespace ThriftIdl.Text

/-- The decimal digits of a number, without leading zeros. -/
def digits (n : Nat) : List Char := Nat.toDigits 10 n

/-- The value of a run of decimal digits. -/
def value (text : List Char) : Nat := Nat.ofDigitChars 10 text 0

/-- The digits of a number have that number as their value. -/
theorem value_digits (n : Nat) : value (digits n) = n :=
  Nat.ofDigitChars_toDigits (by decide) (by decide)

/-- The text of a number: its digits, after a minus sign when it is negative. -/
def integer (n : Int) : List Char :=
  if n < 0 then '-' :: digits n.natAbs else digits n.natAbs

/-- The value of digits after an optional sign. -/
def signedValue : List Char → Int
  | '-' :: text => -(value text : Int)
  | '+' :: text => value text
  | text => value text

end ThriftIdl.Text
