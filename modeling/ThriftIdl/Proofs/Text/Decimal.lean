import Mathlib.Algebra.Group.Nat.Defs
import ThriftIdl.Proofs.Text.Numeral
import ThriftIdl.Text.Decimal

/-!
# Numbers as they are written

The digits of a number are digits, as few as its size asks for, and the text of an integer is an
integer that reads back as it (`isInteger_integer`, `signedValue_integer`), within all bounds if it has
64 bits (`admitsInteger_integer`). No nought stands before
other digits of a number (`unpadded_digits`). Noughts before digits mean nothing, and noughts after
them are a factor of ten each.
-/
namespace ThriftIdl.Text

/-- The digits of a number are digits. -/
theorem isDigit_of_mem_digits {n : Nat} {c : Char} (mem : c ∈ digits n) : isDigit c := by
  have digit : c.isDigit := Nat.isDigit_of_mem_toDigits (by decide) (by decide) mem
  simp only [Char.isDigit, ge_iff_le, UInt32.le_iff_toNat_le, Bool.and_eq_true,
    decide_eq_true_eq] at digit
  simp only [isDigit, Char.toNat, Bool.and_eq_true, decide_eq_true_eq]
  exact digit

/-- A number has digits. -/
theorem digits_ne_nil (n : Nat) : digits n ≠ [] := Nat.toDigits_ne_nil

/-- A number below a power of ten has few digits. -/
theorem length_digits_le {n power : Nat} (small : n < 10 ^ power) :
    (digits n).length ≤ power + 1 := by
  refine (Nat.length_toDigits_le_iff (by decide) (Nat.succ_pos _)).2 ?_
  refine Nat.lt_of_lt_of_le small ?_
  exact Nat.pow_le_pow_right (by decide) (Nat.le_succ _)

/-- Digits without needless noughts before them: a single nought, or digits that begin with
another. -/
def Unpadded (text : List Char) : Prop :=
  ∃ first others, text = first :: others ∧ (first = '0' → others = [])

/-- The digits of a number but nought begin with no nought. -/
theorem head?_digits {n : Nat} (positive : 0 < n) : (digits n).head? ≠ some '0' := by
  induction n using Nat.strongRecOn with
  | ind n ih =>
    by_cases small : n < 10
    · rw [digits, Nat.toDigits_of_lt_base small]
      have other : ∀ n < 10, 0 < n → Nat.digitChar n ≠ '0' := by decide
      simpa using other n small positive
    · obtain ⟨first, others, parts⟩ := List.exists_cons_of_ne_nil (digits_ne_nil (n / 10))
      have leads := ih (n / 10) (by omega) (by omega)
      rw [digits, Nat.toDigits_of_base_le (by decide) (by omega)]
      rw [digits] at parts leads
      simpa [parts] using leads

/-- No nought stands before other digits of a number. -/
theorem unpadded_digits (n : Nat) : Unpadded (digits n) := by
  obtain ⟨first, others, parts⟩ := List.exists_cons_of_ne_nil (digits_ne_nil n)
  refine ⟨first, others, parts, ?_⟩
  rintro rfl
  rcases Nat.eq_zero_or_pos n with rfl | positive
  · exact (List.cons.inj (parts.symm.trans (by decide : digits 0 = ['0']))).2
  · exact absurd (by rw [parts]; rfl) (head?_digits positive)

/-- The value of digits in a row. -/
theorem value_append (first second : List Char) :
    value (first ++ second) = value first * 10 ^ second.length + value second := by
  rw [value, Nat.ofDigitChars_append, Nat.ofDigitChars_eq_ofDigitChars_zero, Nat.mul_comm]
  rfl

/-- Noughts have no value. -/
theorem value_replicate (count : Nat) : value (List.replicate count '0') = 0 := by
  simp [value]

/-- Noughts before digits mean nothing. -/
theorem value_replicate_append (count : Nat) (text : List Char) :
    value (List.replicate count '0' ++ text) = value text := by
  rw [value_append, value_replicate, Nat.zero_mul, Nat.zero_add]

/-- Noughts after digits are a factor of ten each. -/
theorem value_append_replicate (text : List Char) (count : Nat) :
    value (text ++ List.replicate count '0') = value text * 10 ^ count := by
  rw [value_append, value_replicate, List.length_replicate, Nat.add_zero]

/-- Digits without a sign have their value. -/
theorem signedValue_of_digits {text : List Char} (all : ∀ c ∈ text, isDigit c) :
    signedValue text = value text := by
  unfold signedValue
  split
  next => exact absurd (all '-' (by simp)) (by decide)
  next => exact absurd (all '+' (by simp)) (by decide)
  next => rfl

/-- The text of an integer is an integer. -/
theorem isInteger_integer (n : Int) : IsInteger (integer n) := by
  have some := digits_ne_nil n.natAbs
  have all : ∀ c ∈ digits n.natAbs, isDigit c := fun c mem => isDigit_of_mem_digits mem
  unfold integer
  split
  · exact ⟨['-'], digits n.natAbs, rfl, .inr (.inr rfl), some, all⟩
  · exact ⟨[], digits n.natAbs, rfl, .inl rfl, some, all⟩

/-- The text of an integer has it as its value. -/
@[simp] theorem signedValue_integer (n : Int) : signedValue (integer n) = n := by
  unfold integer
  split
  next =>
    simp only [signedValue, value_digits]
    omega
  next =>
    rw [signedValue_of_digits fun c mem => isDigit_of_mem_digits mem, value_digits]
    omega

/-- An integer has 64 bits if it lies between the least and the greatest one. -/
theorem fitsInteger_iff {n : Int} :
    fitsInteger n ↔ -9223372036854775808 ≤ n ∧ n ≤ 9223372036854775807 := by
  rw [fitsInteger, Bool.and_eq_true, decide_eq_true_iff, decide_eq_true_iff]
  rfl

/-- An integer of 64 bits has few digits. -/
theorem length_digits_natAbs_le {n : Int} (fits : fitsInteger n) :
    (digits n.natAbs).length ≤ 20 := by
  have bounds := fitsInteger_iff.1 fits
  have small : n.natAbs < 10 ^ 19 := by
    have power : 10 ^ 19 = 10000000000000000000 := by decide
    omega
  exact length_digits_le small

/-- The text of an integer of 64 bits is admitted as one. -/
theorem admitsInteger_integer {n : Int} (fits : fitsInteger n) : admitsInteger (integer n) := by
  have short := length_digits_natAbs_le fits
  have all : ∀ c ∈ digits n.natAbs, isDigit c := fun c mem => isDigit_of_mem_digits mem
  have counted : digitCount (integer n) = (digits n.natAbs).length := by
    unfold integer
    split
    · exact digitCount_append (.inr (.inr rfl)) all
    · exact digitCount_append (.inl rfl) all
  rw [admitsInteger, Bool.and_eq_true, isConvertible, counted, fitsNumeral, signedValue_integer]
  exact ⟨decide_eq_true (Nat.le_trans short (by decide)), fits⟩

end ThriftIdl.Text
