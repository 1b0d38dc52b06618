/-!
# Double precision numbers

The 64-bit binary floating point numbers. The numbers that are not negative, infinity included,
are counted upwards from zero, and a magnitude is its place in this order (`ordinal`): the low
52 bits of the place are the fraction, the bits above them the exponent. Every finite magnitude
is a whole number of units of 2^-1074 (`units`), so that all arithmetic on magnitudes is
arithmetic of natural numbers followed by one rounding. Rounding is to the nearest magnitude, of
two equally near ones to the one with the even place, and a carry runs from the fraction into
the exponent and from the greatest finite magnitude into infinity without a case of its own.
-/
namespace ThriftIdl

/-- The number of fractions that go with one exponent: 2^52. -/
def fractionCount : Nat := Nat.pow 2 52

/-- The number of units that make up one: 2^1074. -/
def unitsOfOne : Nat := Nat.pow 2 1074

/-- The place of infinity among the numbers that are not negative. -/
def infinityOrdinal : Nat := 2047 * fractionCount

/-- A number that is not negative, or infinity. -/
structure Magnitude where
  /-- The place among all magnitudes, counted from zero. -/
  ordinal : Nat
  /-- Nothing is greater than infinity. -/
  le_infinity : ordinal ≤ infinityOrdinal
deriving DecidableEq

namespace Magnitude

/-- Nought. -/
def zero : Magnitude := ⟨0, by decide⟩

/-- Infinity. -/
def infinity : Magnitude := ⟨infinityOrdinal, Nat.le_refl _⟩

/-- Whether a magnitude is a number and not infinity. -/
def isFinite (m : Magnitude) : Bool := m.ordinal < infinityOrdinal

/-- The number of units of 2^-1074 that make up a finite magnitude. -/
def units (m : Magnitude) : Nat :=
  match m.ordinal / fractionCount with
  | 0 => m.ordinal
  | exponent + 1 => (fractionCount + m.ordinal % fractionCount) <<< exponent

/-- A quotient rounded to a whole number, a half to the even one. -/
def roundQuotient (numerator denominator : Nat) : Nat :=
  let quotient := numerator / denominator
  let twice := 2 * (numerator % denominator)
  if denominator < twice || (denominator = twice && quotient % 2 = 1) then quotient + 1
  else quotient

/-- The number of bits to drop from a whole number for 53 bits to remain. -/
def excessBits (n : Nat) : Nat := n.log2 - 52

/-- The magnitude nearest to a quotient of units. -/
def ofQuotient (numerator denominator : Nat) : Magnitude :=
  let excess := excessBits (numerator / denominator)
  let ordinal := excess * fractionCount + roundQuotient numerator (denominator <<< excess)
  ⟨min ordinal infinityOrdinal, Nat.min_le_right _ _⟩

/-- The magnitude nearest to a whole number of units. -/
def ofUnits (n : Nat) : Magnitude := ofQuotient n 1

/-- The magnitude nearest to a coefficient times a power of ten. Powers that lie beyond all
magnitudes are not computed: from 10^343 on every coefficient but nought is infinite, and a
coefficient below 2^n is nought once divided by 8^k with n + 1080 < 3 * k. -/
def ofDecimal (coefficient : Nat) : Int → Magnitude
  | .ofNat power =>
    if coefficient = 0 then zero
    else if 342 < power then infinity
    else ofUnits (coefficient * Nat.pow 10 power * unitsOfOne)
  | .negSucc power =>
    if coefficient.log2 + 1 + 1080 < 3 * (power + 1) then zero
    else ofQuotient (coefficient * unitsOfOne) (Nat.pow 10 (power + 1))

end Magnitude

/-- A double precision number. -/
inductive Double where
  /-- A magnitude with a sign; nought has both signs. -/
  | number (negative : Bool) (magnitude : Magnitude)
  /-- No number. -/
  | nan
deriving DecidableEq

namespace Double

/-- Whether a double is a finite number. -/
def isFinite : Double → Bool
  | .number _ magnitude => magnitude.isFinite
  | .nan => false

/-- Whether a double is nought, of either sign. -/
def isZero : Double → Bool
  | .number _ magnitude => magnitude.ordinal = 0
  | .nan => false

/-- Numerical equality: the two noughts are equal, and no number equals itself only as `nan`. -/
def same : Double → Double → Bool
  | .number negative m, .number negative' n =>
    m.ordinal = n.ordinal && (negative = negative' || m.ordinal = 0)
  | _, _ => false

/-- The units of a finite number with their sign. -/
def signedUnits (negative : Bool) (magnitude : Magnitude) : Int :=
  if negative then -(magnitude.units : Int) else magnitude.units

/-- The double nearest to a whole number of units; a sum of nought is positive. -/
def ofSignedUnits (n : Int) : Double := .number (n < 0) (Magnitude.ofUnits n.natAbs)

/-- The double of half a natural number. -/
def ofHalves (n : Nat) : Double := .number false (Magnitude.ofUnits (n * unitsOfOne / 2))

/-- The rounded sum of two doubles. -/
def add : Double → Double → Double
  | .number negative m, .number negative' n =>
    if m.isFinite then
      if n.isFinite then ofSignedUnits (signedUnits negative m + signedUnits negative' n)
      else .number negative' n
    else if n.isFinite || negative = negative' then .number negative m
    else .nan
  | _, _ => .nan

/-- The rounded product of a double and a positive number. -/
def scale (factor : Nat) : Double → Double
  | .number negative m =>
    .number negative (if m.isFinite then Magnitude.ofUnits (factor * m.units) else m)
  | .nan => .nan

/-- Whether a double is less than another; no number is less than `nan` or greater. -/
def less : Double → Double → Bool
  | .number negative m, .number negative' n =>
    if m.ordinal = 0 && n.ordinal = 0 then false
    else match negative, negative' with
      | false, false => m.ordinal < n.ordinal
      | true, true => n.ordinal < m.ordinal
      | true, false => true
      | false, true => false
  | _, _ => false

/-- Whether the rounded distance of two finite magnitudes with signs is at most the rounded
2^-50th part of a third. -/
def within (distance : Nat) (m : Magnitude) : Bool :=
  (Magnitude.ofUnits distance).ordinal ≤ (Magnitude.ofQuotient m.units (Nat.pow 2 50)).ordinal

/-- Approximate equality: equal numbers, and finite numbers whose distance is at most the
2^-50th part of one of them, which is four times the distance of one from the next double. -/
def close : Double → Double → Bool
  | .number negative m, .number negative' n =>
    same (.number negative m) (.number negative' n) ||
      (m.isFinite && n.isFinite &&
        let distance := (signedUnits negative' n - signedUnits negative m).natAbs
        within distance n || within distance m)
  | _, _ => false

/-- Approximate equality does not depend on the order. -/
theorem close_comm (a b : Double) : close a b = close b a := by
  cases a with
  | nan => cases b <;> rfl
  | number negative m =>
    cases b with
    | nan => rfl
    | number negative' n =>
      have distances : (signedUnits negative' n - signedUnits negative m).natAbs =
          (signedUnits negative m - signedUnits negative' n).natAbs := by omega
      have sames : same (.number negative m) (.number negative' n) =
          same (.number negative' n) (.number negative m) := by
        simp only [same]
        by_cases equal : m.ordinal = n.ordinal
        · simp only [equal, eq_comm]
        · simp [equal, Ne.symm equal]
      simp only [close, distances, sames, Bool.or_comm (within _ n), Bool.and_comm m.isFinite]

end Double
end ThriftIdl
