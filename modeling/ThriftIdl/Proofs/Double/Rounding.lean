import Mathlib.Tactic.Ring
import ThriftIdl.Double.Decimal

/-!
# Rounding to doubles

A decimal is read as the magnitude nearest to its value, whatever its coefficient and its exponent
are (`ofDecimal_eq_nearest`), so that it may be written with more noughts and a smaller exponent
(`ofDecimal_mul_pow`). A magnitude is nearest to its own units (`ofUnits_units`), and so the digits
that are chosen for it always read back as it (`ofDecimal_shortest_self`), also where seventeen
are not enough.
-/
namespace ThriftIdl.Magnitude

/-- The fractions are counted by a power of two. -/
theorem fractionCount_eq : fractionCount = 2 ^ 52 := rfl

/-- One is a power of two of units. -/
theorem exists_unitsOfOne_eq : ∃ bits, bits = 1074 ∧ unitsOfOne = 2 ^ bits := by
  obtain ⟨bits, count⟩ : ∃ bits, bits = 1074 := ⟨_, rfl⟩
  refine ⟨bits, count, ?_⟩
  unfold unitsOfOne
  rw [← count, Nat.pow_eq]

section Quotients

variable {numerator denominator numerator' denominator' factor : Nat}

/-- A quotient is rounded to the same number if both of its parts are multiplied. -/
theorem roundQuotient_mul (positive : 0 < factor) :
    roundQuotient (factor * numerator) (factor * denominator) =
      roundQuotient numerator denominator := by
  have twice : 2 * (factor * (numerator % denominator)) =
      factor * (2 * (numerator % denominator)) := by ring
  have same : factor * denominator = factor * (2 * (numerator % denominator)) ↔
      denominator = 2 * (numerator % denominator) := Nat.mul_right_inj positive.ne'
  simp only [roundQuotient, Nat.mul_div_mul_left _ _ positive, Nat.mul_mod_mul_left, twice,
    Nat.mul_lt_mul_left positive, same]

/-- The nearest magnitude is the same if both parts of a quotient are multiplied. -/
theorem ofQuotient_mul (positive : 0 < factor) :
    ofQuotient (factor * numerator) (factor * denominator) = ofQuotient numerator denominator := by
  simp only [ofQuotient, Nat.mul_div_mul_left _ _ positive, Nat.shiftLeft_eq, Nat.mul_assoc,
    roundQuotient_mul positive]

/-- Equal quotients have the same nearest magnitude. -/
theorem ofQuotient_eq_of_mul_eq (positive : 0 < denominator) (positive' : 0 < denominator')
    (same : numerator * denominator' = numerator' * denominator) :
    ofQuotient numerator denominator = ofQuotient numerator' denominator' := by
  calc ofQuotient numerator denominator
    _ = ofQuotient (denominator' * numerator) (denominator' * denominator) :=
      (ofQuotient_mul positive').symm
    _ = ofQuotient (denominator * numerator') (denominator * denominator') := by
      rw [Nat.mul_comm denominator' numerator, same, Nat.mul_comm numerator' denominator,
        Nat.mul_comm denominator' denominator]
    _ = ofQuotient numerator' denominator' := ofQuotient_mul positive

/-- A whole number is rounded to itself. -/
theorem roundQuotient_mul_self (positive : 0 < denominator) (quotient : Nat) :
    roundQuotient (quotient * denominator) denominator = quotient := by
  simp only [roundQuotient, Nat.mul_div_cancel _ positive, Nat.mul_mod_left]
  simp [positive.ne']

/-- A rounded quotient is at least the quotient without its remainder. -/
theorem div_le_roundQuotient : numerator / denominator ≤ roundQuotient numerator denominator := by
  simp only [roundQuotient]
  split <;> omega

/-- Nought is nearest to nought. -/
theorem ofQuotient_zero : ofQuotient 0 denominator = zero := by
  simp [ofQuotient, excessBits, roundQuotient, zero]

/-- Nought is nearest to less than half a unit. -/
theorem ofQuotient_of_small (small : 2 * numerator < denominator) :
    ofQuotient numerator denominator = zero := by
  have less : numerator < denominator := by omega
  have unequal : denominator ≠ 2 * numerator := by omega
  simp only [ofQuotient, Nat.div_eq_of_lt less, excessBits, Nat.log2_zero, Nat.zero_sub,
    Nat.shiftLeft_zero, roundQuotient, Nat.mod_eq_of_lt less]
  simp [zero, unequal, small.le]

/-- Infinity is nearest to so many units that they have more bits than the greatest magnitude. -/
theorem ofUnits_of_large {units bits : Nat} (many : 2098 ≤ bits) (large : 2 ^ bits ≤ units) :
    ofUnits units = infinity := by
  have positive : units ≠ 0 := by
    rintro rfl
    exact absurd large (Nat.not_le.2 (Nat.two_pow_pos _))
  have bits : 2098 ≤ units.log2 := many.trans ((Nat.le_log2 positive).2 large)
  have kept : 2 ^ 52 ≤ units / (1 <<< excessBits units) := by
    rw [Nat.one_shiftLeft, Nat.le_div_iff_mul_le (Nat.two_pow_pos _), ← Nat.pow_add]
    have least : 2 ^ units.log2 ≤ units := Nat.log2_self_le positive
    have exponents : 52 + excessBits units = units.log2 := by
      simp only [excessBits]
      omega
    rwa [exponents]
  have rounded : 2 ^ 52 ≤ roundQuotient units (1 <<< excessBits units) :=
    kept.trans div_le_roundQuotient
  have exponent : 2046 ≤ excessBits units := by
    simp only [excessBits]
    omega
  simp only [ofUnits, ofQuotient, Nat.div_one, infinity, mk.injEq, infinityOrdinal]
  refine Nat.min_eq_right ?_
  have carried := Nat.mul_le_mul_right fractionCount exponent
  have count : (2 : Nat) ^ 52 = fractionCount := rfl
  omega

end Quotients

section Units

/-- A whole number of 53 bits with some bits after it is a magnitude, whose place is told by both. -/
theorem ofUnits_shiftLeft {significand exponent : Nat} (least : 2 ^ 52 ≤ significand)
    (most : significand < 2 ^ 53) :
    (ofUnits (significand <<< exponent)).ordinal =
      min (exponent * fractionCount + significand) infinityOrdinal := by
  have positive : significand ≠ 0 := by
    have some := Nat.two_pow_pos 52
    omega
  have some : 0 < 2 ^ exponent := Nat.two_pow_pos exponent
  have bits : (significand * 2 ^ exponent).log2 = 52 + exponent := by
    refine (Nat.log2_eq_iff (Nat.mul_ne_zero positive some.ne')).2 ⟨?_, ?_⟩
    · rw [Nat.pow_add]
      exact Nat.mul_le_mul_right _ least
    · rw [Nat.add_right_comm, Nat.pow_add]
      exact Nat.mul_lt_mul_of_pos_right most some
  have excess : excessBits (significand * 2 ^ exponent) = exponent := by
    rw [excessBits, bits, Nat.add_sub_cancel_left]
  simp only [ofUnits, ofQuotient, Nat.div_one, Nat.shiftLeft_eq, excess, Nat.one_mul,
    roundQuotient_mul_self some]

/-- Few units are a magnitude of the same place. -/
theorem ofUnits_of_lt {units : Nat} (few : units < fractionCount) :
    (ofUnits units).ordinal = units := by
  have excess : excessBits units = 0 := by
    rw [excessBits, Nat.sub_eq_zero_iff_le]
    by_cases zero : units = 0
    · simp [zero]
    · exact ((Nat.log2_lt zero).2 few).le
  have whole := roundQuotient_mul_self Nat.one_pos units
  rw [Nat.mul_one] at whole
  have finite : units ≤ infinityOrdinal := by
    simp only [infinityOrdinal]
    omega
  simp [ofUnits, ofQuotient, excess, whole, finite]

/-- A finite magnitude is nearest to its own units. -/
theorem ofUnits_units (m : Magnitude) : ofUnits m.units = m := by
  have parts := Nat.div_add_mod m.ordinal fractionCount
  have positive : 0 < fractionCount := Nat.two_pow_pos 52
  have small : m.ordinal % fractionCount < fractionCount := Nat.mod_lt _ positive
  suffices same : (ofUnits m.units).ordinal = m.ordinal by
    cases sum : ofUnits m.units
    cases m
    simp_all
  cases exponent : m.ordinal / fractionCount with
  | zero =>
    have few : m.ordinal < fractionCount := by
      rw [exponent] at parts
      omega
    simp only [units, exponent]
    exact ofUnits_of_lt few
  | succ exponent' =>
    simp only [units, exponent]
    rw [ofUnits_shiftLeft (by rw [← fractionCount_eq]; omega) (by
      rw [Nat.pow_succ, ← fractionCount_eq]
      omega)]
    rw [exponent, Nat.mul_add, Nat.mul_comm] at parts
    have bounded := m.le_infinity
    rw [← Nat.add_assoc, Nat.min_eq_left] <;> omega

end Units

/-- The magnitude nearest to a coefficient times a power of ten. -/
def nearest (coefficient : Nat) (exponent : Int) : Magnitude :=
  ofQuotient (coefficient * 10 ^ exponent.toNat * unitsOfOne) (10 ^ (-exponent).toNat)

/-- Powers of ten are greater than the powers of eight. -/
theorem two_pow_le_ten_pow (power : Nat) : 2 ^ (3 * power) ≤ 10 ^ power := by
  rw [Nat.pow_mul]
  exact Nat.pow_le_pow_left (by decide) power

/-- A decimal is read as the magnitude nearest to it; the powers that are not computed make no
difference. -/
theorem ofDecimal_eq_nearest (coefficient : Nat) (exponent : Int) :
    ofDecimal coefficient exponent = nearest coefficient exponent := by
  obtain ⟨bits, count, one⟩ := exists_unitsOfOne_eq
  cases exponent with
  | ofNat power =>
    simp only [ofDecimal, nearest, Int.ofNat_eq_natCast, Int.toNat_natCast]
    split
    next none => simp [none, ofQuotient_zero]
    next some =>
      rw [show (-(power : Int)).toNat = 0 by simp, Nat.pow_zero]
      split
      next great =>
        have many : 2098 ≤ 3 * power + bits := by omega
        refine (ofUnits_of_large many ?_).symm
        rw [one, Nat.pow_add]
        refine Nat.mul_le_mul_right _ ((two_pow_le_ten_pow power).trans ?_)
        exact Nat.le_mul_of_pos_left _ (Nat.pos_of_ne_zero some)
      next => rfl
  | negSucc power =>
    simp only [ofDecimal, nearest, Int.toNat_negSucc, Nat.pow_zero, Nat.mul_one, Int.neg_negSucc]
    rw [show ((power + 1 : Nat) : Int).toNat = power + 1 from rfl]
    split
    next tiny =>
      refine (ofQuotient_of_small ?_).symm
      have tens := two_pow_le_ten_pow (power + 1)
      have digits : coefficient < 2 ^ (coefficient.log2 + 1) := Nat.lt_log2_self
      calc 2 * (coefficient * unitsOfOne)
        _ < 2 * (2 ^ (coefficient.log2 + 1) * unitsOfOne) := by
          refine Nat.mul_lt_mul_of_pos_left ?_ (by decide)
          rw [one]
          exact Nat.mul_lt_mul_of_pos_right digits (Nat.two_pow_pos bits)
        _ = 2 ^ (coefficient.log2 + 1 + (bits + 1)) := by
          rw [one, Nat.pow_add 2 (coefficient.log2 + 1), Nat.pow_add 2 bits 1]
          ring
        _ ≤ 2 ^ (3 * (power + 1)) := Nat.pow_le_pow_right (by decide) (by omega)
        _ ≤ 10 ^ (power + 1) := tens
    next => rfl

/-- Nought is read as nought. -/
theorem ofDecimal_zero (exponent : Int) : ofDecimal 0 exponent = zero := by
  rw [ofDecimal_eq_nearest, nearest, Nat.zero_mul, Nat.zero_mul, ofQuotient_zero]

/-- A decimal may be written with more noughts and a smaller exponent. -/
theorem ofDecimal_mul_pow (coefficient noughts : Nat) (exponent : Int) :
    ofDecimal (coefficient * 10 ^ noughts) (exponent - noughts) =
      ofDecimal coefficient exponent := by
  rw [ofDecimal_eq_nearest, ofDecimal_eq_nearest, nearest, nearest]
  refine ofQuotient_eq_of_mul_eq (Nat.pow_pos (by decide)) (Nat.pow_pos (by decide)) ?_
  have exponents : noughts + (exponent - noughts).toNat + (-exponent).toNat =
      exponent.toNat + (-(exponent - noughts)).toNat := by omega
  have powers := congrArg (10 ^ ·) exponents
  simp only [Nat.pow_add] at powers
  calc coefficient * 10 ^ noughts * 10 ^ (exponent - noughts).toNat * unitsOfOne *
        10 ^ (-exponent).toNat
    _ = coefficient * unitsOfOne *
        (10 ^ noughts * 10 ^ (exponent - noughts).toNat * 10 ^ (-exponent).toNat) := by ring
    _ = coefficient * unitsOfOne *
        (10 ^ exponent.toNat * 10 ^ (-(exponent - noughts)).toNat) := by rw [powers]
    _ = coefficient * 10 ^ exponent.toNat * unitsOfOne * 10 ^ (-(exponent - noughts)).toNat := by
      ring

/-- The exact value of a magnitude, with its power of ten. -/
theorem exists_exact_eq (m : Magnitude) :
    ∃ bits : Nat, bits = 1074 ∧ m.exact = ⟨m.units * 5 ^ bits, -(bits : Int)⟩ := by
  obtain ⟨bits, count⟩ : ∃ bits, bits = 1074 := ⟨_, rfl⟩
  have least : (-1074 : Int) = -(bits : Int) := by omega
  refine ⟨bits, count, ?_⟩
  rw [exact, ← count, Nat.pow_eq, least]

/-- The exact value of a magnitude reads back as that magnitude. -/
theorem ofDecimal_exact (m : Magnitude) :
    ofDecimal m.exact.coefficient m.exact.exponent = m := by
  obtain ⟨bits, count, value⟩ := m.exists_exact_eq
  obtain ⟨bits', count', one⟩ := exists_unitsOfOne_eq
  rw [count'.trans count.symm] at one
  have tens : 5 ^ bits * 2 ^ bits = 10 ^ bits := (Nat.mul_pow 5 2 bits).symm
  rw [value, ofDecimal_eq_nearest, nearest]
  simp only [Int.neg_neg, Int.toNat_natCast, Int.toNat_neg_natCast, Nat.pow_zero, Nat.mul_one, one,
    Nat.mul_assoc, tens]
  calc ofQuotient (m.units * 10 ^ bits) (10 ^ bits)
    _ = ofQuotient (10 ^ bits * m.units) (10 ^ bits * 1) := by rw [Nat.mul_comm, Nat.mul_one]
    _ = ofUnits m.units := ofQuotient_mul (Nat.pow_pos (by decide))
    _ = m := ofUnits_units m

/-- The digits chosen for a magnitude read back as that magnitude. -/
theorem ofDecimal_shortest_self (m : Magnitude) :
    ofDecimal m.shortest.coefficient m.shortest.exponent = m := by
  cases found : m.lastDigits.findSome? m.neighbour? with
  | some decimal => exact ofDecimal_shortest (by rw [found]; rfl)
  | none =>
    rw [shortest, found]
    exact ofDecimal_exact m

end ThriftIdl.Magnitude
