import ThriftIdl.Bounds
import ThriftIdl.Proofs.Double.Rounding
import ThriftIdl.Proofs.Text.Decimal

/-!
# Doubles as they are written

The text of a finite double is a number with a fraction or an exponent and without needless noughts,
and the double nearest to that number is the double that was written (`exists_number_of_isFinite`).
Both layouts keep the value of the digits: without an exponent, noughts fill the places between the
digits and the point, and with one, the point stands after the first digit.
-/
namespace ThriftIdl

open Text

section Significant

/-- Digits without the noughts at their end. -/
def significant (text : List Char) : List Char := (text.reverse.dropWhile (· = '0')).reverse

/-- Only noughts are left out. -/
theorem exists_eq_significant_append (text : List Char) :
    ∃ count, text = significant text ++ List.replicate count '0' := by
  refine ⟨(text.reverse.takeWhile (· = '0')).length, ?_⟩
  have noughts : text.reverse.takeWhile (· = '0') =
      List.replicate (text.reverse.takeWhile (· = '0')).length '0' := by
    refine List.eq_replicate_of_mem fun c mem => ?_
    simpa using List.all_eq_true.1 List.all_takeWhile c mem
  calc text
    _ = (text.reverse.takeWhile (· = '0') ++ text.reverse.dropWhile (· = '0')).reverse := by
      rw [List.takeWhile_append_dropWhile, List.reverse_reverse]
    _ = significant text ++ (text.reverse.takeWhile (· = '0')).reverse := by
      rw [List.reverse_append]
      rfl
    _ = significant text ++
        List.replicate (text.reverse.takeWhile (· = '0')).length '0' := by
      rw [noughts, List.reverse_replicate, List.length_replicate]

/-- What is left of digits are digits. -/
theorem mem_of_mem_significant {text : List Char} {c : Char} (mem : c ∈ significant text) :
    c ∈ text := by
  obtain ⟨count, parts⟩ := exists_eq_significant_append text
  rw [parts]
  exact List.mem_append_left _ mem

/-- What is left of the digits of a number begins with no nought. -/
theorem head?_significant_digits {n : Nat} (left : significant (Text.digits n) ≠ []) :
    (significant (Text.digits n)).head? ≠ some '0' := by
  obtain ⟨count, parts⟩ := exists_eq_significant_append (Text.digits n)
  obtain ⟨first, others, digits, unpadded⟩ := unpadded_digits n
  obtain ⟨c, more, same⟩ := List.exists_cons_of_ne_nil left
  rw [same, digits, List.cons_append, List.cons.injEq] at parts
  rw [same, List.head?_cons]
  rintro ⟨⟩
  have nothing : significant ['0'] = [] := rfl
  rw [digits, parts.1, unpadded parts.1, nothing] at same
  cases same

end Significant

/-- A number that is written without a sign, and the magnitude that it is read as. -/
structure Number.Spells (number : Number) (m : Magnitude) : Prop where
  /-- Its parts are what they stand for. -/
  formed : number.WellFormed
  /-- No needless nought stands before it. -/
  unpadded : Unpadded number.whole
  /-- It has a fraction or an exponent. -/
  fractional : number.isIntegral = false
  /-- Its exponent has 64 bits. -/
  admitted : number.Admitted admitsInteger
  /-- It has no sign. -/
  sign : number.sign = []
  /-- The nearest magnitude to its value. -/
  magnitude : Magnitude.ofDecimal (value (number.whole ++ number.fraction.getD []))
    (number.numeral.exponent - (number.fraction.getD []).length) = m

namespace DoubleLayout

variable {digits : List Char} {leading : Int}

/-- The number that digits without an exponent are. -/
def plainNumber (digits : List Char) : Int → Number
  | .negSucc zeros => ⟨[], ['0'], some (List.replicate zeros '0' ++ digits), none⟩
  | .ofNat places =>
    ⟨[], digits.take (places + 1) ++
        List.replicate (places + 1 - (digits.take (places + 1)).length) '0',
      some (if (digits.drop (places + 1)).isEmpty then ['0'] else digits.drop (places + 1)), none⟩

/-- The number that digits with an exponent are. -/
def scientificNumber (layout : DoubleLayout) (digits : List Char) (leading : Int) : Number :=
  ⟨[], digits.take 1, if (digits.drop 1).isEmpty then none else some (digits.drop 1),
    some ('e', (if leading < 0 then '-' else '+') ::
      (List.replicate (layout.exponentWidth - (Text.digits leading.natAbs).length) '0' ++
        Text.digits leading.natAbs))⟩

/-- Digits without an exponent are the text of their number. -/
theorem text_plainNumber : (plainNumber digits leading).text = plain digits leading := by
  cases leading with
  | negSucc zeros => simp [plainNumber, plain, Number.text]
  | ofNat places => simp [plainNumber, plain, Number.text]

/-- Digits with an exponent are the text of their number. -/
theorem text_scientificNumber {layout : DoubleLayout} :
    (layout.scientificNumber digits leading).text = layout.scientific digits leading := by
  simp only [scientificNumber, scientific, Number.text]
  split <;> simp

/-- A nought is a digit. -/
theorem isDigit_of_mem_replicate {count : Nat} {c : Char} (mem : c ∈ List.replicate count '0') :
    isDigit c := by
  rw [List.eq_of_mem_replicate mem]
  decide

/-- Digits after a point and noughts keep their value. -/
theorem spells_plainNumber_negSucc (zeros : Nat) (some : digits ≠ []) (all : ∀ c ∈ digits, isDigit c) :
    (plainNumber digits (.negSucc zeros)).Spells
      (Magnitude.ofDecimal (value digits) (.negSucc zeros - digits.length + 1)) := by
  have formed : (plainNumber digits (.negSucc zeros)).WellFormed := by
    refine ⟨.inl rfl, List.forall_mem_singleton.2 (by decide), ?_, by simp [plainNumber]⟩
    rintro _ ⟨⟩
    refine ⟨by simp [some], fun c mem => ?_⟩
    rcases List.mem_append.1 mem with mem | mem
    · exact isDigit_of_mem_replicate mem
    · exact all c mem
  refine ⟨formed, ⟨'0', [], rfl, fun _ => rfl⟩, by simp [plainNumber, Number.isIntegral],
    by simp [plainNumber, Number.Admitted], rfl, ?_⟩
  have noughts : value (['0'] ++ (List.replicate zeros '0' ++ digits)) = value digits := by
    rw [← value_replicate_append (zeros + 1) digits, List.replicate_succ]
    rfl
  simp only [plainNumber, Option.getD_some, noughts, Number.numeral, Option.elim_none,
    List.length_append, List.length_replicate]
  congr 1
  omega

/-- Digits with a point among them or after them are well-formed. -/
theorem wellFormed_plainNumber_ofNat (places : Nat) (all : ∀ c ∈ digits, isDigit c) :
    (plainNumber digits (.ofNat places)).WellFormed := by
  refine ⟨.inl rfl, fun c mem => ?_, ?_, by simp [plainNumber]⟩
  · rcases List.mem_append.1 mem with mem | mem
    · exact all c (List.mem_of_mem_take mem)
    · exact isDigit_of_mem_replicate mem
  · rintro _ ⟨⟩
    split
    next => exact ⟨by simp, List.forall_mem_singleton.2 (by decide)⟩
    next more => exact ⟨by simpa using more, fun c mem => all c (List.mem_of_mem_drop mem)⟩

/-- The digits before the point begin with the first digit. -/
theorem unpadded_plainNumber_ofNat (places : Nat) (leads : digits.head? ≠ some '0')
    (some : digits ≠ []) : Unpadded (plainNumber digits (.ofNat places)).whole := by
  obtain ⟨first, others, rfl⟩ := List.exists_cons_of_ne_nil some
  refine ⟨first, _, rfl, fun nought => absurd ?_ leads⟩
  rw [List.head?_cons, nought]

/-- Digits with a point among them or after them keep their value. -/
theorem spells_plainNumber_ofNat (places : Nat) (leads : digits.head? ≠ some '0')
    (some : digits ≠ []) (all : ∀ c ∈ digits, isDigit c) :
    (plainNumber digits (.ofNat places)).Spells
      (Magnitude.ofDecimal (value digits) (.ofNat places - digits.length + 1)) := by
  refine ⟨wellFormed_plainNumber_ofNat places all, unpadded_plainNumber_ofNat places leads some,
    by simp [plainNumber, Number.isIntegral], by simp [plainNumber, Number.Admitted], rfl, ?_⟩
  simp only [plainNumber, Option.getD_some, Number.numeral, Option.elim_none]
  by_cases short : digits.length ≤ places + 1
  · -- The digits end before the point, and one nought stands after it.
    have noughts : digits ++ List.replicate (places + 1 - digits.length) '0' ++ ['0'] =
        digits ++ List.replicate (places + 1 - digits.length + 1) '0' := by
      rw [List.append_assoc, List.replicate_succ']
    simp only [List.take_of_length_le short, List.drop_eq_nil_of_le short, List.isEmpty_nil,
      ↓reduceIte, noughts, value_append_replicate]
    rw [← Magnitude.ofDecimal_mul_pow (value digits) (places + 1 - digits.length + 1)]
    congr 1
    simp only [Int.ofNat_eq_natCast, List.length_singleton]
    omega
  · have some' : (digits.drop (places + 1)).isEmpty = false := by simpa using short
    have full : (digits.take (places + 1)).length = places + 1 := by
      simp only [List.length_take]
      omega
    simp only [some', Bool.false_eq_true, ↓reduceIte, full, Nat.sub_self, List.replicate_zero,
      List.append_nil, List.take_append_drop]
    congr 1
    simp only [Int.ofNat_eq_natCast, List.length_drop]
    omega

/-- Digits without an exponent keep their value. -/
theorem spells_plainNumber (leads : digits.head? ≠ some '0') (some : digits ≠ [])
    (all : ∀ c ∈ digits, isDigit c) :
    (plainNumber digits leading).Spells
      (Magnitude.ofDecimal (value digits) (leading - digits.length + 1)) := by
  cases leading with
  | negSucc zeros => exact spells_plainNumber_negSucc zeros some all
  | ofNat places => exact spells_plainNumber_ofNat places leads some all

/-- The exponent that is written has its value. -/
theorem signedValue_exponent (count : Nat) :
    signedValue ((if leading < 0 then '-' else '+') ::
      (List.replicate count '0' ++ Text.digits leading.natAbs)) = leading := by
  split
  next =>
    simp only [signedValue, value_replicate_append, value_digits]
    omega
  next =>
    simp only [signedValue, value_replicate_append, value_digits]
    omega

/-- An exponent of 64 bits is admitted, if it is not filled up with too many noughts. -/
theorem admitsInteger_exponent {layout : DoubleLayout} (fits : fitsInteger leading)
    (narrow : layout.exponentWidth ≤ digitLimit) :
    admitsInteger ((if leading < 0 then '-' else '+') ::
      (List.replicate (layout.exponentWidth - (Text.digits leading.natAbs).length) '0' ++
        Text.digits leading.natAbs)) := by
  have short := length_digits_natAbs_le fits
  have all : ∀ c ∈ List.replicate (layout.exponentWidth - (Text.digits leading.natAbs).length) '0' ++
      Text.digits leading.natAbs, isDigit c := by
    intro c mem
    rcases List.mem_append.1 mem with mem | mem
    · exact isDigit_of_mem_replicate mem
    · exact isDigit_of_mem_digits mem
  have isSign : IsSign [if leading < 0 then '-' else '+'] := by
    split
    · exact .inr (.inr rfl)
    · exact .inr (.inl rfl)
  have counted := digitCount_append isSign all
  rw [List.singleton_append] at counted
  rw [admitsInteger, Bool.and_eq_true, isConvertible, counted, fitsNumeral, signedValue_exponent]
  refine ⟨decide_eq_true ?_, fits⟩
  rw [List.length_append, List.length_replicate]
  have room : 20 ≤ digitLimit := by decide
  omega

/-- Digits with an exponent keep their value. -/
theorem spells_scientificNumber {layout : DoubleLayout} (some : digits ≠ [])
    (all : ∀ c ∈ digits, isDigit c) (fits : fitsInteger leading)
    (narrow : layout.exponentWidth ≤ digitLimit) :
    (layout.scientificNumber digits leading).Spells
      (Magnitude.ofDecimal (value digits) (leading - digits.length + 1)) := by
  obtain ⟨first, others, rfl⟩ := List.exists_cons_of_ne_nil some
  have isExponent : ∀ count, IsInteger ((if leading < 0 then '-' else '+') ::
      (List.replicate count '0' ++ Text.digits leading.natAbs)) := by
    intro count
    have all : ∀ c ∈ List.replicate count '0' ++ Text.digits leading.natAbs, isDigit c := by
      intro c mem
      rcases List.mem_append.1 mem with mem | mem
      · exact isDigit_of_mem_replicate mem
      · exact isDigit_of_mem_digits mem
    refine ⟨[if leading < 0 then '-' else '+'], _, rfl, ?_, by simp [digits_ne_nil], all⟩
    split
    · exact .inr (.inr rfl)
    · exact .inr (.inl rfl)
  have fraction : ∀ c ∈ others, isDigit c := fun c mem => all c (by simp [mem])
  have formed : (layout.scientificNumber (first :: others) leading).WellFormed := by
    refine ⟨.inl rfl, by simpa [scientificNumber] using all first (by simp), ?_, ?_⟩
    · intro digits mem
      simp only [scientificNumber, List.drop_succ_cons, List.drop_zero] at mem
      split at mem
      next => cases mem
      next more =>
        obtain rfl := Option.some.inj mem
        exact ⟨by simpa using more, fraction⟩
    · rintro _ ⟨⟩
      exact ⟨.inl rfl, isExponent _⟩
  refine ⟨formed, ⟨first, [], rfl, fun _ => rfl⟩, by simp [scientificNumber, Number.isIntegral], ?_,
    rfl, ?_⟩
  · rintro _ ⟨⟩
    exact admitsInteger_exponent fits narrow
  · simp only [scientificNumber, Number.numeral, Option.elim_some, signedValue_exponent,
      List.take_succ_cons, List.take_zero, List.drop_succ_cons, List.drop_zero]
    cases others with
    | nil => simp
    | cons second others =>
      simp only [List.isEmpty_cons, Bool.false_eq_true, ↓reduceIte, Option.getD_some,
        List.singleton_append, List.length_cons]
      congr 1
      omega

end DoubleLayout

namespace Magnitude

/-- A magnitude has few units. -/
theorem exists_units_lt (m : Magnitude) : ∃ power ≤ 2100, m.units < 10 ^ power := by
  have positive : 0 < fractionCount := Nat.two_pow_pos 52
  have small : m.ordinal % fractionCount < fractionCount := Nat.mod_lt _ positive
  have exponent : m.ordinal / fractionCount ≤ 2047 := by
    refine Nat.div_le_of_le_mul ?_
    rw [Nat.mul_comm]
    exact m.le_infinity
  refine ⟨53 + m.ordinal / fractionCount, by omega, ?_⟩
  refine Nat.lt_of_lt_of_le ?_ (Nat.pow_le_pow_left (by decide : 2 ≤ 10) _)
  cases quotient : m.ordinal / fractionCount with
  | zero =>
    have few : m.ordinal < fractionCount := (Nat.div_eq_zero_iff_lt positive).1 quotient
    simp only [units, quotient]
    refine few.trans ?_
    decide
  | succ exponent' =>
    simp only [units, quotient, Nat.shiftLeft_eq]
    have significand : fractionCount + m.ordinal % fractionCount < 2 ^ 53 := by
      rw [Nat.pow_succ, ← fractionCount_eq]
      omega
    calc (fractionCount + m.ordinal % fractionCount) * 2 ^ exponent'
      _ < 2 ^ 53 * 2 ^ exponent' :=
        Nat.mul_lt_mul_of_pos_right significand (Nat.two_pow_pos _)
      _ = 2 ^ (53 + exponent') := (Nat.pow_add _ _ _).symm
      _ ≤ 2 ^ (53 + (exponent' + 1)) := Nat.pow_le_pow_right (by decide) (by omega)

/-- No more steps are counted than are allowed. -/
theorem tensToOne_le (fuel numerator denominator : Nat) :
    tensToOne fuel numerator denominator ≤ fuel := by
  induction fuel generalizing numerator with
  | zero => exact Nat.le_refl _
  | succ fuel ih =>
    simp only [tensToOne]
    split
    · omega
    · exact Nat.succ_le_succ (ih _)

/-- The leading exponent of a magnitude is small. -/
theorem decimalExponent_bounds (m : Magnitude) :
    -324 ≤ decimalExponent m.units ∧ decimalExponent m.units ≤ 2100 := by
  obtain ⟨power, bounded, few⟩ := m.exists_units_lt
  unfold decimalExponent
  split
  next =>
    have short := length_digits_le (Nat.lt_of_le_of_lt (Nat.div_le_self m.units unitsOfOne) few)
    have some := List.length_pos_iff.2 (digits_ne_nil (m.units / unitsOfOne))
    omega
  next =>
    have counted := tensToOne_le 324 m.units unitsOfOne
    omega

/-- The coefficient and the exponent of a neighbour are small. -/
theorem neighbour?_bounds {m : Magnitude} {exponent : Int} {decimal : Decimal}
    (found : m.neighbour? exponent = some decimal) (least : -400 ≤ exponent) :
    decimal.exponent = exponent ∧ ∃ power ≤ 2501, decimal.coefficient < 10 ^ power := by
  obtain ⟨power, bounded, numerators⟩ :
      ∃ power ≤ 2500, (inPowers m.units exponent).1 < 10 ^ power := by
    obtain ⟨power, bounded, few⟩ := m.exists_units_lt
    cases exponent with
    | ofNat places => exact ⟨power, by omega, few⟩
    | negSucc places =>
      refine ⟨power + (places + 1), by omega, ?_⟩
      rw [Nat.pow_add]
      exact Nat.mul_lt_mul_of_pos_right few (Nat.pow_pos (by decide))
  have below : (inPowers m.units exponent).1 / (inPowers m.units exponent).2 < 10 ^ power :=
    Nat.lt_of_le_of_lt (Nat.div_le_self _ _) numerators
  have above : (inPowers m.units exponent).1 / (inPowers m.units exponent).2 + 1 <
      10 ^ (power + 1) := by
    rw [Nat.pow_succ]
    omega
  simp only [neighbour?] at found
  split at found
  next =>
    obtain rfl := Option.some.inj found
    exact ⟨rfl, _, by omega, above⟩
  next =>
    split at found
    next =>
      obtain rfl := Option.some.inj found
      exact ⟨rfl, _, by omega, below⟩
    next => cases found

/-- The coefficient and the exponent of the digits chosen for a magnitude are small. -/
theorem shortest_bounds (m : Magnitude) :
    -2000 ≤ m.shortest.exponent ∧ m.shortest.exponent ≤ 2100 ∧
      ∃ power ≤ 4000, m.shortest.coefficient < 10 ^ power := by
  cases found : m.lastDigits.findSome? m.neighbour? with
  | some decimal =>
    obtain ⟨exponent, mem, neighbour⟩ := List.exists_of_findSome?_eq_some found
    obtain ⟨more, range, rfl⟩ := List.mem_map.1 mem
    obtain ⟨least, most⟩ := m.decimalExponent_bounds
    have few := List.mem_range.1 range
    obtain ⟨exponents, power, bounded, small⟩ := neighbour?_bounds neighbour (by omega)
    rw [shortest, found, Option.getD_some, exponents]
    exact ⟨by omega, by omega, power, by omega, small⟩
  | none =>
    obtain ⟨power, bounded, few⟩ := m.exists_units_lt
    obtain ⟨bits, count, exactly⟩ := m.exists_exact_eq
    rw [shortest, found, Option.getD_none, exactly]
    refine ⟨by simp only; omega, by simp only; omega, power + bits, by omega, ?_⟩
    rw [Nat.pow_add]
    exact Nat.mul_lt_mul_of_lt_of_le few (Nat.pow_le_pow_left (by decide) _)
      (Nat.pow_pos (by decide))

/-- The digits of a decimal without the noughts at their end have the value of the decimal, if the
leading digit keeps its place. -/
theorem ofDecimal_significant {coefficient : Nat} {exponent leading : Int}
    (nought : (ofDecimal coefficient exponent).ordinal ≠ 0)
    (leads : leading = exponent + (Text.digits coefficient).length - 1) :
    significant (Text.digits coefficient) ≠ [] ∧
      (∀ c ∈ significant (Text.digits coefficient), isDigit c) ∧
      ofDecimal (value (significant (Text.digits coefficient)))
        (leading - (significant (Text.digits coefficient)).length + 1) =
          ofDecimal coefficient exponent := by
  obtain ⟨count, parts⟩ := exists_eq_significant_append (Text.digits coefficient)
  have values := congrArg value parts
  rw [value_digits, value_append_replicate] at values
  have lengths := congrArg List.length parts
  rw [List.length_append, List.length_replicate] at lengths
  refine ⟨fun none => nought ?_, fun c mem => isDigit_of_mem_digits (mem_of_mem_significant mem), ?_⟩
  · rw [none, show value [] = 0 from rfl, Nat.zero_mul] at values
    rw [values, ofDecimal_zero]
    rfl
  · generalize significant (Text.digits coefficient) = digits at *
    rw [values, ← ofDecimal_mul_pow _ count]
    congr 1
    omega

/-- The text of a finite magnitude is a number that is read as that magnitude. -/
theorem exists_number (m : Magnitude) (finite : m.isFinite) :
    ∃ number : Number, number.text = m.text ∧ number.Spells m := by
  by_cases nought : m.ordinal = 0
  · have zero : m = zero := by
      cases m
      simpa [Magnitude.zero] using nought
    subst zero
    exact ⟨⟨[], ['0'], some ['0'], none⟩, rfl,
      ⟨.inl rfl, by simp [isDigit], by simp [IsDigits, isDigit], by simp⟩,
      ⟨'0', [], rfl, fun _ => rfl⟩, rfl, by simp [Number.Admitted], rfl, ofDecimal_zero _⟩
  · have finite' : m.text = DoubleLayout.standard.text m.shortest := by
      rw [text, if_neg nought, if_pos finite]
    have reads := m.ofDecimal_shortest_self
    obtain ⟨least, most, power, bounded, small⟩ := m.shortest_bounds
    rw [finite', DoubleLayout.text]
    generalize m.shortest.coefficient = coefficient at reads small ⊢
    generalize m.shortest.exponent = exponent at reads least most ⊢
    have short := length_digits_le small
    have some := List.length_pos_iff.2 (digits_ne_nil coefficient)
    rw [← reads] at nought
    obtain ⟨some', all, value'⟩ := ofDecimal_significant nought rfl
    rw [reads] at value'
    split
    · have spells := @DoubleLayout.spells_plainNumber _
        (exponent + (Text.digits coefficient).length - 1) (head?_significant_digits some') some' all
      rw [value'] at spells
      exact ⟨_, DoubleLayout.text_plainNumber, spells⟩
    · have fits : fitsInteger (exponent + (Text.digits coefficient).length - 1) :=
        fitsInteger_iff.2 ⟨by omega, by omega⟩
      have spells := @DoubleLayout.spells_scientificNumber _ _ .standard some' all fits (by decide)
      rw [value'] at spells
      exact ⟨_, DoubleLayout.text_scientificNumber, spells⟩

end Magnitude

/-- A number with a minus sign or none and without needless noughts before it. -/
structure Number.Terse (number : Number) : Prop where
  /-- Its parts are what they stand for. -/
  formed : number.WellFormed
  /-- It has no plus sign. -/
  sign : number.sign = [] ∨ number.sign = ['-']
  /-- No needless nought stands before it. -/
  unpadded : Unpadded number.whole

namespace Number.Terse

variable {number number' : Number} {rest rest' : List Char}

/-- A number without needless noughts has digits. -/
theorem hasDigits (terse : number.Terse) : number.hasDigits := by
  obtain ⟨first, others, whole, -⟩ := terse.unpadded
  simp [Number.hasDigits, whole]

/-- A number without needless noughts begins with a minus sign and a digit, or with a digit. -/
theorem exists_text (terse : number.Terse) :
    ∃ c tail, isDigit c ∧ (number.text = '-' :: c :: tail ∨ number.text = c :: tail) := by
  obtain ⟨first, others, whole, -⟩ := terse.unpadded
  have digit : isDigit first := terse.formed.whole first (by simp [whole])
  rcases terse.sign with sign | sign
  · exact ⟨first, _, digit, .inr (by rw [number.text_eq, sign, whole]; rfl)⟩
  · exact ⟨first, _, digit, .inl (by rw [number.text_eq, sign, whole]; rfl)⟩

/-- A number is read in one way only where nothing goes on with it. -/
theorem unique (terse : number.Terse) (terse' : number'.Terse) (stop : NumberStop rest)
    (stop' : NumberStop rest') (same : number.text ++ rest = number'.text ++ rest') :
    number = number' ∧ rest = rest' := by
  have scanned := scanNumber_append (fun _ => true) terse.formed terse.hasDigits (fun _ _ => rfl) stop
  rw [same, scanNumber_append (fun _ => true) terse'.formed terse'.hasDigits (fun _ _ => rfl) stop']
    at scanned
  exact (Prod.mk.inj scanned).imp Eq.symm Eq.symm

end Number.Terse

/-- The text of a finite double is a number that is read as that double. -/
theorem Double.exists_number_of_isFinite {value : Double} (finite : value.isFinite) :
    ∃ number : Number, number.text = value.text ∧ number.Terse ∧ number.isIntegral = false ∧
      number.Admitted admitsInteger ∧ number.toDouble = value := by
  cases value with
  | nan => cases finite
  | number negative m =>
    obtain ⟨number, text, formed, unpadded, fractional, admitted, sign, magnitude⟩ :=
      m.exists_number finite
    obtain ⟨_, whole, fraction, exponent⟩ := number
    obtain rfl := sign
    cases negative with
    | false =>
      refine ⟨_, text, ⟨formed, .inl rfl, unpadded⟩, fractional, admitted, ?_⟩
      simp only [Number.toDouble, Numeral.toDouble, Number.numeral, number.injEq]
      exact ⟨rfl, magnitude⟩
    | true =>
      refine ⟨⟨['-'], whole, fraction, exponent⟩, ?_,
        ⟨⟨.inr (.inr rfl), formed.whole, formed.fraction, formed.exponent⟩, .inr rfl, unpadded⟩,
        fractional, admitted, ?_⟩
      · simpa [Double.text, Number.text] using text
      · simp only [Number.toDouble, Numeral.toDouble, Number.numeral, number.injEq]
        exact ⟨by decide, magnitude⟩

end ThriftIdl
