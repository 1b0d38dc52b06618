import ThriftIdl.Failure
import ThriftIdl.Proofs.Text.Decimal

/-!
# Texts of one line

A text that is shown between quotes has one line whatever it holds, because a line end is shown after a
backslash (`oneLine_shown`). So what is said of a reason has one line if the words in it that are not
between quotes have (`Reason.Plain.oneLine_message`).
-/
namespace ThriftIdl

open Text

/-- A text has one line. -/
def OneLine (text : String) : Prop := '\n' ∉ text.toList

instance (text : String) : Decidable (OneLine text) := inferInstanceAs (Decidable ('\n' ∉ text.toList))

/-- Two texts in a row have one line if each has. -/
theorem oneLine_append {first second : String} :
    OneLine (first ++ second) ↔ OneLine first ∧ OneLine second := by
  simp [OneLine]

/-- Characters have one line if none is a line end. -/
theorem oneLine_ofList {text : List Char} : OneLine (String.ofList text) ↔ '\n' ∉ text := by
  rw [OneLine, String.toList_ofList]

/-- Hexadecimal digits are no line ends. -/
theorem line_end_not_mem_hexDigits (width n : Nat) : '\n' ∉ hexDigits width n := by
  induction width generalizing n with
  | zero => exact List.not_mem_nil
  | succ width ih =>
    have digit : ∀ digit < 16, Nat.digitChar digit ≠ '\n' := by decide
    rw [hexDigits, List.mem_append, List.mem_singleton, not_or]
    exact ⟨ih (n / 16), (digit (n % 16) (Nat.mod_lt _ (by decide))).symm⟩

/-- A character that is shown is no line end. -/
theorem line_end_not_mem_escaped (quote : Quote) (c : Char) : '\n' ∉ escaped quote c := by
  have mark : '\n' ≠ quote.char := by cases quote <;> decide
  rw [escaped]
  split
  case isTrue same =>
    simp only [Bool.or_eq_true, decide_eq_true_eq] at same
    rcases same with rfl | rfl
    · decide
    · simpa using mark
  split
  · decide
  case isFalse other =>
    repeat' split
    · decide
    · decide
    · simpa using Ne.symm other
    all_goals simpa using line_end_not_mem_hexDigits _ _

/-- What is shown between quotes has one line. -/
theorem oneLine_shown (text : List Char) : OneLine (shown text) := by
  rw [shown, oneLine_ofList, quoted]
  have mark (quote : Quote) : '\n' ≠ quote.char := by cases quote <;> decide
  simp only [List.cons_append, List.mem_cons, List.mem_append, List.mem_flatMap, List.not_mem_nil,
    or_false, not_or]
  refine ⟨mark _, ?_, mark _⟩
  rintro ⟨c, -, mem⟩
  exact line_end_not_mem_escaped _ c mem

/-- A digit is no line end. -/
theorem line_end_not_mem_of_isDigit {text : List Char} (digits : ∀ c ∈ text, isDigit c) :
    '\n' ∉ text := fun mem => absurd (digits _ mem) (by decide)

/-- An integer is written in one line. -/
theorem IsInteger.oneLine {text : List Char} (isInteger : IsInteger text) : '\n' ∉ text := by
  obtain ⟨sign, digits, rfl, isSign, -, each⟩ := isInteger
  rw [List.mem_append, not_or]
  refine ⟨?_, line_end_not_mem_of_isDigit each⟩
  rcases isSign with rfl | rfl | rfl <;> decide

/-- The digits of a number are no line end. -/
theorem line_end_not_mem_digits (n : Nat) : '\n' ∉ digits n :=
  line_end_not_mem_of_isDigit fun _ mem => isDigit_of_mem_digits mem

/-- That digits are too many is said in one line. -/
theorem oneLine_digitsMessage (count : Nat) : OneLine (digitsMessage count) := by
  have written (n : Nat) : OneLine (String.ofList (digits n)) :=
    oneLine_ofList.2 (line_end_not_mem_digits n)
  refine oneLine_append.2 ⟨oneLine_append.2 ⟨oneLine_append.2 ⟨oneLine_append.2 ⟨?_, ?_⟩, ?_⟩, ?_⟩, ?_⟩
  · decide
  · exact written digitLimit
  · decide
  · exact written count
  · decide

namespace Reason

/-- The words of a reason that are not shown between quotes have one line, and the reason is none of
looking beyond a text. -/
def Plain : Reason → Prop
  | charExpected _ production _ | noAlternative production _ | tooDeep production => OneLine production
  | keywordExpected word production => OneLine word ∧ OneLine production
  | integerTooLarge text => '\n' ∉ text
  | outOfRange => False
  | _ => True

/-- A plain reason is none of looking beyond a text. -/
theorem Plain.ne_outOfRange {reason : Reason} (plain : reason.Plain) : reason ≠ .outOfRange := by
  rintro rfl
  exact plain

/-- What is said of a plain reason has one line. -/
theorem Plain.oneLine_message {reason : Reason} (plain : reason.Plain) (limit : Int) :
    OneLine (reason.message limit) := by
  unfold message
  cases reason with
  | literalUnclosed quote =>
    refine oneLine_append.2 ⟨oneLine_append.2 ⟨by decide, ?_⟩, by decide⟩
    cases quote <;> decide
  | charExpected wanted production found =>
    simp only [oneLine_append]
    exact ⟨⟨⟨⟨⟨by decide, oneLine_shown _⟩, by decide⟩, plain⟩, by decide⟩, oneLine_shown _⟩
  | keywordExpected word production =>
    simp only [oneLine_append]
    exact ⟨⟨⟨by decide, plain.1⟩, by decide⟩, plain.2⟩
  | integerTooLarge text =>
    exact oneLine_append.2 ⟨oneLine_append.2 ⟨by decide, oneLine_ofList.2 plain⟩, by decide⟩
  | doubleMalformed text => exact oneLine_append.2 ⟨by decide, oneLine_shown _⟩
  | doubleIntegral text => exact oneLine_append.2 ⟨oneLine_shown _, by decide⟩
  | noAlternative production found =>
    simp only [oneLine_append]
    exact ⟨⟨⟨by decide, plain⟩, by decide⟩, oneLine_shown _⟩
  | definitionExpected found => exact oneLine_append.2 ⟨by decide, oneLine_shown _⟩
  | tooDeep production =>
    refine oneLine_append.2 ⟨oneLine_append.2 ⟨oneLine_append.2 ⟨by decide, ?_⟩, by decide⟩, plain⟩
    exact oneLine_ofList.2 (isInteger_integer limit).oneLine
  | outOfRange => exact plain.elim
  | tooManyDigits count => exact oneLine_digitsMessage count
  | _ =>
    dsimp only
    decide

end Reason

end ThriftIdl
