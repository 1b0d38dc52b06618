import ThriftIdl.Token.Lexer

/-!
# Patterns and the numbers that they match

A pattern is matched at the start of a text by trying its ways in an order; each way leaves a rest,
and the first way that there is counts (`Pattern.match?`). A run takes as much as it can before it
takes less, so that what comes after it may give some of it back; where that can begin with nothing
that belongs to the run, the run is as long as it can be (`Pattern.rests_both_run`). The patterns of
an integer and of a number with a fraction or an exponent match exactly what is scanned without
giving anything back (`Pattern.match?_integer`, `Pattern.match?_double`).
-/
namespace ThriftIdl

open Text

/-- A pattern for the start of a text. -/
inductive Pattern where
  /-- One character of a class. -/
  | one (belongs : Char → Bool)
  /-- As many characters of a class as there are, or else fewer. -/
  | run (belongs : Char → Bool)
  /-- One pattern, and then another. -/
  | both (first second : Pattern)
  /-- One pattern, or else another. -/
  | either (first second : Pattern)
  /-- A pattern, or else nothing. -/
  | option (inner : Pattern)

namespace Pattern

/-- What the ways to take a run off a text leave, the longest run first. -/
def runRests (belongs : Char → Bool) : List Char → List (List Char)
  | [] => [[]]
  | c :: text => if belongs c then runRests belongs text ++ [c :: text] else [c :: text]

/-- What the ways to match a pattern leave of a text, in the order in which they are tried. -/
def rests : Pattern → List Char → List (List Char)
  | one _, [] => []
  | one belongs, c :: text => if belongs c then [text] else []
  | run belongs, text => runRests belongs text
  | both first second, text => (first.rests text).flatMap second.rests
  | either first second, text => first.rests text ++ second.rests text
  | option inner, text => inner.rests text ++ [text]

/-- The start of a text that a pattern matches in its first way, and the text after it. -/
def match? (pattern : Pattern) (text : List Char) : Option (List Char × List Char) :=
  (pattern.rests text).head?.map fun rest => (text.take (text.length - rest.length), rest)

/-- How many characters at the start of a text a pattern matches. -/
def length? (pattern : Pattern) (text : List Char) : Option Nat :=
  (pattern.match? text).map (·.1.length)

/-- A sign, or else nothing: `[+-]?`. -/
def sign : Pattern := option (one fun c => c = '+' || c = '-')

/-- Some digits: `[0-9]+`. -/
def digits : Pattern := both (one isDigit) (run isDigit)

/-- An integer: `[+-]?[0-9]+`. -/
def integer : Pattern := both sign digits

/-- An exponent: `[eE][+-]?[0-9]+`. -/
def exponent : Pattern := both (one fun c => c = 'e' || c = 'E') integer

/-- A number with a fraction and without a sign: `[0-9]*\.[0-9]+([eE][+-]?[0-9]+)?`. -/
def decimal : Pattern :=
  both (run isDigit) (both (one fun c => c = '.') (both digits (option exponent)))

/-- A number with a fraction or an exponent:
`[+-]?([0-9]*\.[0-9]+([eE][+-]?[0-9]+)?|[0-9]+[eE][+-]?[0-9]+)`. -/
def double : Pattern := both sign (either decimal (both digits exponent))

section Ways

variable {pattern first second : Pattern} {belongs : Char → Bool} {text rest : List Char}

/-- What a run leaves is an end of the text. -/
theorem suffix_of_mem_runRests (mem : rest ∈ runRests belongs text) : rest <:+ text := by
  induction text with
  | nil => simpa [runRests] using mem
  | cons c text ih =>
    simp only [runRests] at mem
    split at mem
    · rcases List.mem_append.1 mem with fewer | none
      · exact (ih fewer).trans (List.suffix_cons c text)
      · obtain rfl := List.mem_singleton.1 none
        exact List.suffix_rfl
    · obtain rfl := List.mem_singleton.1 mem
      exact List.suffix_rfl

/-- What a way leaves is an end of the text. -/
theorem suffix_of_mem_rests (mem : rest ∈ pattern.rests text) : rest <:+ text := by
  induction pattern generalizing text rest with
  | one belongs =>
    cases text with
    | nil => cases mem
    | cons c text =>
      simp only [rests] at mem
      split at mem
      · rw [List.mem_singleton.1 mem]
        exact List.suffix_cons c text
      · cases mem
  | run belongs => exact suffix_of_mem_runRests mem
  | both first second ihFirst ihSecond =>
    obtain ⟨middle, opening, closing⟩ := List.mem_flatMap.1 mem
    exact (ihSecond closing).trans (ihFirst opening)
  | either first second ihFirst ihSecond =>
    rcases List.mem_append.1 mem with here | there
    · exact ihFirst here
    · exact ihSecond there
  | option inner ih =>
    rcases List.mem_append.1 mem with here | nothing
    · exact ih here
    · obtain rfl := List.mem_singleton.1 nothing
      exact List.suffix_rfl

/-- A pattern matches what the first way takes. -/
theorem match?_eq_some_iff {found : List Char} :
    pattern.match? text = some (found, rest) ↔
      text = found ++ rest ∧ (pattern.rests text).head? = some rest := by
  simp only [match?, Option.map_eq_some_iff, Prod.mk.injEq]
  constructor
  · rintro ⟨rest, way, rfl, rfl⟩
    obtain ⟨taken, rfl⟩ := suffix_of_mem_rests (List.mem_of_mem_head? way)
    simp [way]
  · rintro ⟨rfl, way⟩
    exact ⟨rest, way, by simp, rfl⟩

/-- A pattern matches some characters where it takes that many. -/
theorem length?_eq_some_iff {count : Nat} :
    pattern.length? text = some count ↔
      ∃ found rest, pattern.match? text = some (found, rest) ∧ found.length = count := by
  simp [length?]

/-- No way to match a pattern begins with a character of a class. -/
def Refuses (pattern : Pattern) (belongs : Char → Bool) : Prop :=
  ∀ c text, belongs c → pattern.rests (c :: text) = []

/-- The longest run is tried first, and all others leave a character that belongs to it. -/
theorem exists_runRests (belongs : Char → Bool) (text : List Char) :
    ∃ others, runRests belongs text = text.dropWhile belongs :: others ∧
      ∀ rest ∈ others, ∃ c after, rest = c :: after ∧ belongs c := by
  induction text with
  | nil => exact ⟨[], rfl, by simp⟩
  | cons c text ih =>
    obtain ⟨others, same, leave⟩ := ih
    cases holds : belongs c with
    | true =>
      refine ⟨others ++ [c :: text], by simp [runRests, holds, same], fun rest mem => ?_⟩
      rcases List.mem_append.1 mem with fewer | none
      · exact leave rest fewer
      · exact ⟨c, text, List.mem_singleton.1 none, holds⟩
    | false => exact ⟨[], by simp [runRests, holds], by simp⟩

/-- The first way to take a run is the longest one. -/
theorem head?_rests_run : ((run belongs).rests text).head? = some (text.dropWhile belongs) := by
  obtain ⟨others, same, -⟩ := exists_runRests belongs text
  simp [rests, same]

/-- Before a pattern that refuses what belongs to it, only the longest run is matched. -/
theorem rests_both_run (refuses : pattern.Refuses belongs) :
    (both (run belongs) pattern).rests text = pattern.rests (text.dropWhile belongs) := by
  obtain ⟨others, same, leave⟩ := exists_runRests belongs text
  have nothing : others.flatMap pattern.rests = [] := by
    rw [List.flatMap_eq_nil_iff]
    intro rest mem
    obtain ⟨c, after, rfl, holds⟩ := leave rest mem
    exact refuses c after holds
  simp [rests, same, nothing]

/-- One pattern and then another match first what the second one matches first after the first. -/
theorem head?_rests_both {last : List Char} (opening : (first.rests text).head? = some rest)
    (closing : (second.rests rest).head? = some last) :
    ((both first second).rests text).head? = some last := by
  obtain ⟨others, same⟩ := List.head?_eq_some_iff.1 opening
  simp [rests, same, List.head?_append, closing]

/-- A pattern that may be left out matches what it matches, or nothing. -/
theorem head?_rests_option :
    ((option pattern).rests text).head? = some ((pattern.rests text).head?.getD text) := by
  cases ways : pattern.rests text <;> simp [rests, ways]

end Ways

section Numbers

variable {pattern : Pattern} {text : List Char}

/-- Before a pattern that refuses a sign, a sign is taken where it stands. -/
theorem rests_both_sign (refuses : pattern.Refuses fun c => c = '+' || c = '-') :
    (both sign pattern).rests text = pattern.rests (scanSign text).2 := by
  cases text with
  | nil => simp [rests, sign, scanSign]
  | cons c text =>
    cases isSign : (decide (c = '+') || decide (c = '-')) with
    | true => simp [rests, sign, scanSign, isSign, refuses c text isSign]
    | false => simp [rests, sign, scanSign, isSign]

/-- Some digits are matched like a run of them, if there is one. -/
theorem rests_both_digits :
    (both digits pattern).rests text =
      if (scanDigits text).1.isEmpty then []
      else (both (run isDigit) pattern).rests text.tail := by
  cases text with
  | nil => rfl
  | cons c text => cases digit : isDigit c <;> simp [rests, digits, scanDigits, digit]

/-- Digits that are scanned are left after their first one. -/
theorem dropWhile_tail (some : (scanDigits text).1.isEmpty = false) :
    text.tail.dropWhile isDigit = (scanDigits text).2 := by
  cases text with
  | nil => cases some
  | cons c text => cases digit : isDigit c <;> simp_all [scanDigits]

/-- Before a pattern that refuses digits, all digits are taken that there are. -/
theorem rests_both_digits_of_refuses (refuses : pattern.Refuses isDigit) :
    (both digits pattern).rests text =
      if (scanDigits text).1.isEmpty then [] else pattern.rests (scanDigits text).2 := by
  rw [rests_both_digits]
  cases none : (scanDigits text).1.isEmpty with
  | true => rfl
  | false => simp [rests_both_run refuses, dropWhile_tail none]

/-- The first way to match some digits takes all that there are. -/
theorem head?_rests_digits :
    (digits.rests text).head? =
      if (scanDigits text).1.isEmpty then none else some (scanDigits text).2 := by
  cases text with
  | nil => rfl
  | cons c text =>
    cases digit : isDigit c with
    | false => simp [rests, digits, scanDigits, digit]
    | true =>
      have longest : ((run isDigit).rests text).head? = _ := head?_rests_run
      simpa [rests, digits, scanDigits, digit] using longest

/-- A sign is no digit. -/
theorem isDigit_of_sign (c : Char) (isSign : (c = '+' || c = '-') = true) : isDigit c = false := by
  simp only [Bool.or_eq_true, decide_eq_true_eq] at isSign
  rcases isSign with rfl | rfl <;> rfl

/-- The pattern of an integer matches first what is scanned. -/
theorem head?_rests_integer : (integer.rests text).head? = (scanInteger? text).map Prod.snd := by
  have refuses : digits.Refuses fun c => c = '+' || c = '-' := by
    intro c text isSign
    simp [digits, rests, isDigit_of_sign c isSign]
  rw [integer, rests_both_sign refuses, head?_rests_digits]
  simp only [scanInteger?]
  split <;> rfl

/-- The pattern of an exponent matches first what is scanned. -/
theorem head?_rests_exponent : (exponent.rests text).head? = (scanExponent? text).map Prod.snd := by
  cases text with
  | nil => rfl
  | cons c text =>
    simp only [exponent, rests, scanExponent?]
    split
    · simp [head?_rests_integer, Function.comp_def]
    · rfl

/-- An exponent begins with no digit. -/
theorem refuses_exponent : exponent.Refuses isDigit := by
  intro c text digit
  have other : (c = 'e' || c = 'E') = false := by
    simp only [Bool.or_eq_false_iff, decide_eq_false_iff_not]
    constructor <;> rintro rfl <;> cases digit
  simp [exponent, rests, other]

/-- The pattern of a number with a fraction matches first the fraction that is scanned, and the
exponent after it. -/
theorem head?_rests_decimal :
    (decimal.rests text).head? = (scanFraction? (scanDigits text).2).map fun (_, rest) =>
      ((scanExponent? rest).map Prod.snd).getD rest := by
  have refuses : (both (one fun c => c = '.') (both digits (option exponent))).Refuses isDigit := by
    intro c text digit
    have other : c ≠ '.' := by
      rintro rfl
      cases digit
    simp [rests, other]
  rw [decimal, rests_both_run refuses, show text.dropWhile isDigit = (scanDigits text).2 from rfl]
  cases after : (scanDigits text).2 with
  | nil => rfl
  | cons c text =>
    by_cases point : c = '.'
    · subst point
      have ways : (both (one fun c => c = '.') (both digits (option exponent))).rests ('.' :: text) =
          (both digits (option exponent)).rests text := by simp [rests]
      rw [ways, scanFraction?]
      cases none : (scanDigits text).1.isEmpty with
      | true => simp [rests_both_digits, none]
      | false =>
        have opening : (digits.rests text).head? = some (scanDigits text).2 := by
          simp [head?_rests_digits, none]
        simp [head?_rests_both opening head?_rests_option, head?_rests_exponent, none]
    · have nothing : scanFraction? (c :: text) = none := by simp [scanFraction?, point]
      simp [rests, point, nothing]

/-- The pattern of a number with a fraction or an exponent matches first what is scanned. -/
theorem head?_rests_double : (double.rests text).head? = (matchDouble? text).map Prod.snd := by
  have refuses : (either decimal (both digits exponent)).Refuses fun c => c = '+' || c = '-' := by
    intro c text isSign
    have other := isDigit_of_sign c isSign
    have noPoint : c ≠ '.' := by
      rintro rfl
      cases isSign
    simp [decimal, rests, runRests, digits, other, noPoint]
  rw [double, rests_both_sign refuses]
  generalize unsigned : (scanSign text).2 = rest
  have decimals : (decimal.rests rest).head? = _ := head?_rests_decimal
  have powers : (exponent.rests (scanDigits rest).2).head? = _ := head?_rests_exponent
  simp only [rests, List.head?_append, decimals]
  rw [show (digits.rests rest).flatMap exponent.rests = (both digits exponent).rests rest from rfl,
    rests_both_digits_of_refuses refuses_exponent]
  simp only [matchDouble?, scanNumber, unsigned]
  cases fraction : scanFraction? (scanDigits rest).2 with
  | some found =>
    cases power : scanExponent? found.2 <;> simp [power, Number.hasDigits, Number.isIntegral]
  | none =>
    cases none : (scanDigits rest).1.isEmpty <;> cases power : scanExponent? (scanDigits rest).2 <;>
      simp [powers, power, Number.hasDigits, Number.isIntegral, none]

/-- A pattern matches what is scanned if it matches the same first. -/
theorem match?_eq_of_head? {scan : List Char → Option (List Char × List Char)}
    (spelled : ∀ found rest, scan text = some (found, rest) → text = found ++ rest)
    (first : (pattern.rests text).head? = (scan text).map Prod.snd) :
    pattern.match? text = scan text := by
  refine Option.ext fun ⟨found, rest⟩ => ?_
  rw [match?_eq_some_iff, first]
  constructor
  · rintro ⟨same, way⟩
    obtain ⟨⟨found', _⟩, scanned, rfl⟩ := Option.map_eq_some_iff.1 way
    have parts := spelled _ _ scanned
    rw [same] at parts
    rw [scanned, List.append_cancel_right parts]
  · intro scanned
    exact ⟨spelled _ _ scanned, by simp [scanned]⟩

/-- The pattern of an integer matches what is scanned. -/
theorem match?_integer (text : List Char) : integer.match? text = scanInteger? text :=
  match?_eq_of_head? (fun _ _ scanned => (scanInteger?_text scanned).symm) head?_rests_integer

/-- The pattern of a number with a fraction or an exponent matches what is scanned. -/
theorem match?_double (text : List Char) : double.match? text = matchDouble? text := by
  refine match?_eq_of_head? (fun found rest scanned => ?_) head?_rests_double
  simp only [matchDouble?] at scanned
  split at scanned
  next =>
    simp only [Option.some.injEq, Prod.mk.injEq] at scanned
    obtain ⟨rfl, rfl⟩ := scanned
    exact (scanNumber_text _ text).symm
  next => cases scanned

end Numbers
end Pattern
end ThriftIdl
