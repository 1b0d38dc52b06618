import ThriftIdl.Double.Basic
import ThriftIdl.Text.Decimal

/-!
# Doubles in decimal

A numeral is a sign, digits before and after a point, and an exponent of ten. Reading one gives
the double nearest to its value. Printing one gives the fewest digits that read back as the same
double, and of these the ones nearest to its value. Main statement: `ofDecimal_shortest`, the
digits chosen for a magnitude of at most seventeen digits read back as that magnitude.
-/
namespace ThriftIdl

/-- The parts of a number as it is written. -/
structure Numeral where
  /-- Whether a minus sign stands before it. -/
  negative : Bool
  /-- The digits before the point. -/
  whole : List Char
  /-- The digits after the point. -/
  fraction : List Char
  /-- The exponent of ten. -/
  exponent : Int
deriving DecidableEq, Repr

/-- The double nearest to the value of a numeral. -/
def Numeral.toDouble (numeral : Numeral) : Double :=
  .number numeral.negative
    (Magnitude.ofDecimal (Text.value (numeral.whole ++ numeral.fraction))
      (numeral.exponent - numeral.fraction.length))

/-- A coefficient with the exponent of a power of ten. -/
structure Decimal where
  /-- The coefficient. -/
  coefficient : Nat
  /-- The exponent of ten. -/
  exponent : Int
deriving DecidableEq, Repr

namespace Magnitude

/-- How often a quotient below one is multiplied by ten until it is at least one. -/
def tensToOne : Nat → Nat → Nat → Nat
  | 0, _, _ => 0
  | fuel + 1, numerator, denominator =>
    if denominator ≤ numerator then 0 else tensToOne fuel (numerator * 10) denominator + 1

/-- The exponent of the greatest power of ten that a positive number of units reaches. -/
def decimalExponent (units : Nat) : Int :=
  if unitsOfOne ≤ units then ((Text.digits (units / unitsOfOne)).length : Int) - 1
  else -(tensToOne 324 units unitsOfOne : Int)

/-- The quotient that counts how many powers of ten a number of units is. -/
def inPowers (units : Nat) (exponent : Int) : Nat × Nat :=
  match exponent with
  | .ofNat power => (units, unitsOfOne * Nat.pow 10 power)
  | .negSucc power => (units * Nat.pow 10 (power + 1), unitsOfOne)

/-- The better of the two multiples of a power of ten around a magnitude that read back as the
magnitude: the nearer one, of two equally near ones the even one. -/
def neighbour? (m : Magnitude) (exponent : Int) : Option Decimal :=
  let (numerator, denominator) := inPowers m.units exponent
  let below := numerator / denominator
  let twice := 2 * (numerator % denominator)
  let belowReads := ofDecimal below exponent = m
  let aboveReads := ofDecimal (below + 1) exponent = m
  let aboveNearer := denominator < twice || (denominator = twice && below % 2 = 1)
  if aboveReads && (aboveNearer || !belowReads) then some ⟨below + 1, exponent⟩
  else if belowReads then some ⟨below, exponent⟩
  else none

/-- What a neighbour is: a decimal that reads back as the magnitude. -/
theorem ofDecimal_neighbour {m : Magnitude} {exponent : Int} {decimal : Decimal}
    (found : m.neighbour? exponent = some decimal) :
    ofDecimal decimal.coefficient decimal.exponent = m := by
  simp only [neighbour?] at found
  split at found
  next above =>
    simp only [Bool.and_eq_true, decide_eq_true_eq] at above
    obtain rfl := Option.some.inj found
    exact above.1
  next =>
    split at found
    next below =>
      obtain rfl := Option.some.inj found
      simpa using below
    next => exact absurd found (by simp)

/-- The exact value of a magnitude in decimal. -/
def exact (m : Magnitude) : Decimal := ⟨m.units * Nat.pow 5 1074, -1074⟩

/-- The exponents of the last digit of one digit, of two digits, and so on up to seventeen. -/
def lastDigits (m : Magnitude) : List Int :=
  (List.range 17).map fun (more : Nat) => decimalExponent m.units - more

/-- The decimal of fewest digits that reads back, the nearest one of these. -/
def shortest (m : Magnitude) : Decimal := (m.lastDigits.findSome? m.neighbour?).getD m.exact

/-- The digits chosen for a magnitude read back as that magnitude, if seventeen are enough. -/
theorem ofDecimal_shortest {m : Magnitude}
    (short : (m.lastDigits.findSome? m.neighbour?).isSome) :
    ofDecimal m.shortest.coefficient m.shortest.exponent = m := by
  obtain ⟨decimal, found⟩ := Option.isSome_iff_exists.1 short
  obtain ⟨_, _, neighbour⟩ := List.exists_of_findSome?_eq_some found
  simp only [shortest, found, Option.getD_some]
  exact ofDecimal_neighbour neighbour

end Magnitude

/-- How the digits of a double are laid out. -/
structure DoubleLayout where
  /-- The least exponent of ten of a leading digit that is written without an exponent. -/
  leastPlain : Int
  /-- The greatest exponent of ten of a leading digit that is written without an exponent. -/
  greatestPlain : Int
  /-- The least number of digits of an exponent. -/
  exponentWidth : Nat

/-- Doubles from 10^-4 up to below 10^16 are written without an exponent, and an exponent has at
least two digits. -/
def DoubleLayout.standard : DoubleLayout := ⟨-4, 15, 2⟩

/-- Digits without a point, with one after their first, and so on for each place of the point. -/
def DoubleLayout.plain (digits : List Char) (leading : Int) : List Char :=
  match leading with
  | .negSucc zeros => '0' :: '.' :: List.replicate zeros '0' ++ digits
  | .ofNat places =>
    let whole := digits.take (places + 1)
    let fraction := digits.drop (places + 1)
    whole ++ List.replicate (places + 1 - whole.length) '0' ++
      '.' :: (if fraction.isEmpty then ['0'] else fraction)

/-- Digits with a point after the first and an exponent of ten. -/
def DoubleLayout.scientific (layout : DoubleLayout) (digits : List Char) (leading : Int) :
    List Char :=
  let fraction := digits.drop 1
  let exponent := Text.digits leading.natAbs
  digits.take 1 ++ (if fraction.isEmpty then [] else '.' :: fraction) ++
    'e' :: (if leading < 0 then '-' else '+') ::
      List.replicate (layout.exponentWidth - exponent.length) '0' ++ exponent

/-- The digits of a decimal, laid out. -/
def DoubleLayout.text (layout : DoubleLayout) (decimal : Decimal) : List Char :=
  let all := Text.digits decimal.coefficient
  let leading := decimal.exponent + all.length - 1
  let digits := (all.reverse.dropWhile (· = '0')).reverse
  if layout.leastPlain ≤ leading && leading ≤ layout.greatestPlain then
    DoubleLayout.plain digits leading
  else layout.scientific digits leading

/-- The text of a magnitude. -/
def Magnitude.text (m : Magnitude) : List Char :=
  if m.ordinal = 0 then ['0', '.', '0']
  else if m.isFinite then DoubleLayout.standard.text m.shortest
  else ['i', 'n', 'f']

/-- The text of a double. -/
def Double.text : Double → List Char
  | .number negative m => if negative then '-' :: m.text else m.text
  | .nan => ['n', 'a', 'n']

end ThriftIdl
