import ThriftIdl.Proofs.Text.Skipped

/-!
# Texts that are cut off

What is recognised in a text stays when the text is cut off behind it, although the end of a word, a
number or a comment is found by looking at what follows. It is only a run of digits that may not be
cut in two (`Uncut`): an exponent that is too great may be small enough without its last digits. Main
statements: `skip_of_append`, what is skipped in front of a cut, and `Lexes.truncate`, the lexemes in
front of a cut.
-/
namespace ThriftIdl

open Text

/-- No run of digits goes on from the end of a text into what follows. -/
def Uncut (text rest : List Char) : Prop := ∀ c ∈ text.getLast?, isDigit c → NoDigit rest

section Cuts

variable {first text rest : List Char}

/-- No digits go on behind the end of a text where they do not behind that of a longer one. -/
theorem Uncut.of_suffix (uncut : Uncut text rest) (suffix : first <:+ text) : Uncut first rest := by
  intro c mem digit
  obtain ⟨before, rfl⟩ := suffix
  have last : (before ++ first).getLast? = some c := by
    rw [List.getLast?_append, Option.mem_def.1 mem, Option.some_or]
  exact uncut c last digit

/-- What begins with no digit begins with none if something is put behind it that no run of digits goes
on into. -/
theorem Uncut.noDigit_append (uncut : Uncut (first ++ text) rest) (some : first ≠ [])
    (ends : ∀ c ∈ first.getLast?, isDigit c) (noDigit : NoDigit text) : NoDigit (text ++ rest) := by
  cases text with
  | nil =>
    rw [List.append_nil] at uncut
    have last : first.getLast? = .some (first.getLast some) := List.getLast?_eq_some_getLast some
    exact uncut _ last (ends _ last)
  | cons c text => simpa [NoDigit] using noDigit

end Cuts

section Numbers

variable {admits : List Char → Bool} {text rest : List Char}

/-- The last of some digits is a digit. -/
theorem IsDigits.getLast? {digits : List Char} (isDigits : IsDigits digits) :
    ∀ c ∈ digits.getLast?, isDigit c :=
  fun c mem => isDigits.2 c (List.mem_of_getLast? mem)

/-- A fraction that ends before a cut is there without it. -/
theorem scanFraction?_append_of_uncut {digits after : List Char} (uncut : Uncut text rest)
    (found : scanFraction? text = some (digits, after)) :
    scanFraction? (text ++ rest) = some (digits, after ++ rest) := by
  obtain ⟨isDigits, noDigit⟩ := isDigits_of_scanFraction? found
  obtain rfl := scanFraction?_text found
  have further : Uncut (digits ++ after) rest := uncut.of_suffix (List.suffix_cons _ _)
  have scanned := scanDigits_append_of_digits isDigits.2
    (further.noDigit_append isDigits.1 isDigits.getLast? noDigit)
  simp only [List.cons_append, List.append_assoc, scanFraction?, scanned]
  simp [isDigits.1]

/-- The last character of an integer is a digit. -/
theorem IsInteger.getLast? {integer : List Char} (isInteger : IsInteger integer) :
    integer ≠ [] ∧ ∀ c ∈ integer.getLast?, isDigit c := by
  obtain ⟨sign, digits, rfl, -, isDigits⟩ := isInteger
  refine ⟨by simp [isDigits.1], fun c mem => isDigits.getLast? c ?_⟩
  rwa [List.getLast?_append_of_ne_nil _ isDigits.1] at mem

/-- An exponent that ends before a cut is there without it. -/
theorem scanExponent?_append_of_uncut {power : Char × List Char} {after : List Char}
    (uncut : Uncut text rest) (found : scanExponent? text = some (power, after)) :
    scanExponent? (text ++ rest) = some (power, after ++ rest) := by
  obtain ⟨letter, exponent⟩ := power
  obtain ⟨mark, isInteger, noDigit⟩ := isInteger_of_scanExponent? found
  obtain rfl := scanExponent?_text found
  have further : Uncut (exponent ++ after) rest := uncut.of_suffix (List.suffix_cons _ _)
  have stop : NoDigit (after ++ rest) :=
    further.noDigit_append isInteger.getLast?.1 isInteger.getLast?.2 noDigit
  have scanned := scanInteger?_eq_some_iff.2 ⟨(rfl : exponent ++ (after ++ rest) = _), isInteger, stop⟩
  simp only [List.cons_append, List.append_assoc, scanExponent?, Bool.or_eq_true, decide_eq_true_eq]
  rw [if_pos mark, scanned]
  rfl

/-- Nothing goes on with a number in front of a cut. -/
theorem Number.Stops.truncate {number : Number} (stops : number.Stops admits (text ++ rest))
    (uncut : Uncut text rest) : number.Stops admits text where
  noDigit := by
    intro c mem
    refine stops.noDigit c ?_
    rw [List.head?_append, Option.mem_def.1 mem, Option.some_or, Option.mem_def]
  noFraction := by
    intro integral
    cases found : scanFraction? text with
    | none => rfl
    | some parts =>
      have longer := scanFraction?_append_of_uncut uncut found
      rw [stops.noFraction integral] at longer
      cases longer
  noExponent := by
    intro none found mem
    have longer := scanExponent?_append_of_uncut uncut (Option.mem_def.1 mem)
    exact stops.noExponent none (found.1, found.2 ++ rest) longer

/-- A number is scanned in front of a cut as it is scanned without it. -/
theorem scanNumber_of_append {number : Number} {found : List Char} (digits : number.hasDigits)
    (uncut : Uncut text rest)
    (scanned : scanNumber admits (found ++ (text ++ rest)) = (number, text ++ rest)) :
    scanNumber admits (found ++ text) = (number, text) := by
  obtain ⟨formed, admitted⟩ := wellFormed_scanNumber admits (found ++ (text ++ rest))
  have parts := scanNumber_text admits (found ++ (text ++ rest))
  rw [scanned] at formed admitted parts
  obtain rfl : number.text = found := List.append_cancel_right parts
  rw [scanNumber_eq_iff formed digits admitted] at scanned ⊢
  exact scanned.truncate uncut

/-- An integer that is no part of a longer number is a number as a whole. -/
theorem scanNumber_of_isIntegral {integer : List Char} (isInteger : IsInteger integer)
    (noDigit : NoDigit rest) (integral : (scanNumber admits (integer ++ rest)).1.isIntegral) :
    ∃ number : Number, scanNumber admits (integer ++ rest) = (number, rest) ∧ number.hasDigits ∧
      number.isIntegral := by
  have begins : scanInteger? (integer ++ rest) = some (integer, rest) :=
    scanInteger?_eq_some_iff.2 ⟨rfl, isInteger, noDigit⟩
  have digits : (scanNumber admits (integer ++ rest)).1.hasDigits :=
    hasDigits_scanNumber_of_scanInteger? admits (by simp [begins])
  have formed := (wellFormed_scanNumber admits (integer ++ rest)).1
  have stops := stops_scanNumber admits (integer ++ rest)
  have parts := scanNumber_text admits (integer ++ rest)
  revert integral digits formed stops parts
  generalize scanNumber admits (integer ++ rest) = scanned
  obtain ⟨⟨sign, whole, fraction, exponent⟩, after⟩ := scanned
  intro integral digits formed stops parts
  obtain ⟨rfl, rfl⟩ : fraction = none ∧ exponent = none := by
    simpa [Number.isIntegral] using integral
  have some : whole ≠ [] := by simpa [Number.hasDigits] using digits
  have again : scanInteger? (integer ++ rest) = .some (sign ++ whole, after) := by
    refine scanInteger?_eq_some_iff.2 ⟨?_, ⟨sign, whole, rfl, formed.sign, some, formed.whole⟩,
      stops.noDigit⟩
    simpa [Number.text] using parts.symm
  have same := begins.symm.trans again
  simp only [Option.some.injEq, Prod.mk.injEq] at same
  exact ⟨_, by rw [same.2], digits, integral⟩

end Numbers

section Lexing

variable {admits : List Char → Bool} {text rest after found : List Char} {shape : Shape} {lexeme : Lexeme}
  {lexemes : List Lexeme}

/-- Characters keep their shape if something behind a cut is taken away. -/
theorem Shape.Before.truncate (before : shape.Before admits found (text ++ rest))
    (uncut : Uncut text rest) : shape.Before admits found text := by
  have heads : ∀ c ∈ text.head?, c ∈ (text ++ rest).head? := fun c mem => by
    rw [List.head?_append, Option.mem_def.1 mem, Option.some_or, Option.mem_def]
  cases shape with
  | word => exact ⟨before.1, fun c mem => before.2 c (heads c mem)⟩
  | mark | literal => exact before
  | double =>
    obtain ⟨number, scanned, digits, fractional⟩ := before
    exact ⟨number, scanNumber_of_append digits uncut scanned, digits, fractional⟩
  | integer =>
    obtain ⟨isInteger, noDigit, integral⟩ := before
    obtain ⟨number, scanned, digits, integral⟩ := scanNumber_of_isIntegral isInteger noDigit integral
    refine ⟨isInteger, fun c mem => noDigit c (heads c mem), ?_⟩
    rw [scanNumber_of_append digits uncut scanned]
    exact integral

/-- No digits of a lexeme go on into what follows it. -/
theorem Shape.Before.uncut (before : shape.Before admits found rest) : Uncut found rest := by
  intro c mem digit
  cases shape with
  | word => exact before.2.numberStop.noDigit
  | mark symbol =>
    obtain rfl : found = [symbol.char] := before
    obtain rfl : symbol.char = c := by simpa using mem
    exact absurd digit symbol.noOther.1
  | literal =>
    obtain ⟨quote, value, rfl, -⟩ := before
    rw [← List.cons_append, List.getLast?_concat] at mem
    obtain rfl := Option.some.inj mem
    exact absurd digit quote.noOther.1
  | double =>
    obtain ⟨number, scanned, -, -⟩ := before
    have stops := stops_scanNumber admits (found ++ rest)
    rw [scanned] at stops
    exact stops.noDigit
  | integer => exact before.2.1

/-- No digits of a blank or a comment go on into what follows it. -/
theorem Separator.uncut (separator : Separator found rest) : Uncut found rest := by
  intro c mem digit
  cases separator with
  | @blank d _ blank =>
    obtain rfl : d = c := by simpa using mem
    simp only [isBlank, Bool.or_eq_true, decide_eq_true_eq] at blank
    rcases blank with ((rfl | rfl) | rfl) | rfl <;> exact absurd digit (by decide)
  | line _ _ ends =>
    intro d mem
    obtain rfl := ends d mem
    decide
  | @block comment _ _ =>
    have same : '/' :: '*' :: (comment ++ ['*', '/']) = '/' :: '*' :: (comment ++ ['*']) ++ ['/'] := by
      simp
    rw [same, List.getLast?_concat] at mem
    obtain rfl := Option.some.inj mem
    exact absurd digit (by decide)

/-- What stands before the end of a text does not matter. -/
theorem Uncut.append (uncut : Uncut text rest) (some : text ≠ []) (before : List Char) :
    Uncut (before ++ text) rest := by
  rwa [Uncut, List.getLast?_append_of_ne_nil _ some]

/-- No digits of what is skipped go on into what follows. -/
theorem uncut_of_skip (skipped : skip (text ++ rest) = rest) : Uncut text rest := by
  induction size : text.length using Nat.strong_induction_on generalizing text with
  | _ size ih =>
    cases found : afterSeparator? (text ++ rest) with
    | none =>
      have none : text = [] := by simpa [skip_of_none found] using skipped
      simp [none, Uncut]
    | some left =>
      rw [skip_of_some found] at skipped
      obtain ⟨middle, split⟩ := skip_suffix left
      rw [skipped] at split
      obtain rfl := split
      obtain ⟨piece, same, separator⟩ := afterSeparator?_eq_some_iff.1 found
      rw [← List.append_assoc, List.append_cancel_right_eq] at same
      obtain rfl := same
      cases middle with
      | nil => simpa using separator.uncut
      | cons c middle =>
        have positive := List.length_pos_iff.2 separator.ne_nil
        rw [List.length_append] at size
        exact (ih _ (by omega) skipped rfl).append (by simp) piece

/-- A lexeme in front of a cut, without what is behind the cut. -/
def Lexeme.before (rest : List Char) (lexeme : Lexeme) : Lexeme :=
  { lexeme with left := lexeme.left - rest.length }

/-- What follows a lexeme is the end of the text. -/
theorem Lexeme.At.exists_append (here : lexeme.At admits text after) :
    ∃ before, text = before ++ (lexeme.text ++ after) := by
  obtain ⟨before, split⟩ := skip_suffix text
  exact ⟨before, by rw [← here.spelled, split]⟩

/-- What follows some lexemes is the end of the text. -/
theorem Lexes.suffix (lexes : Lexes admits text lexemes after) : after <:+ text := by
  induction lexemes generalizing text with
  | nil => exact lexes ▸ List.suffix_rfl
  | cons lexeme lexemes ih =>
    obtain ⟨middle, here, others⟩ := lexes
    obtain ⟨before, rfl⟩ := here.exists_append
    exact (ih others).trans ((List.suffix_append _ _).trans (List.suffix_append _ _))

/-- A lexeme begins between the start of a text and what follows it. -/
theorem Lexeme.At.left_bounds (here : lexeme.At admits text after) :
    after.length < lexeme.left ∧ lexeme.left ≤ text.length := by
  have left := here.left
  have spelled := congrArg List.length here.spelled
  have some := List.length_pos_iff.2 here.before.ne_nil
  have skipped := length_skip_le text
  rw [List.length_append] at spelled
  omega

/-- Lexemes begin between the start of a text and what follows them. -/
theorem Lexes.left_bounds (lexes : Lexes admits text lexemes rest) :
    ∀ lexeme ∈ lexemes, rest.length < lexeme.left ∧ lexeme.left ≤ text.length := by
  induction lexemes generalizing text with
  | nil => simp
  | cons first lexemes ih =>
    obtain ⟨middle, here, others⟩ := lexes
    have shorter := others.suffix.length_le
    have bounds := here.left_bounds
    refine List.forall_mem_cons.2 ⟨by omega, fun lexeme mem => ?_⟩
    have inner := ih others lexeme mem
    omega

/-- Less and less is left where lexemes begin. -/
theorem Lexes.falling (lexes : Lexes admits text lexemes rest) :
    (lexemes.map Lexeme.left).Pairwise (· > ·) := by
  induction lexemes generalizing text with
  | nil => exact .nil
  | cons first lexemes ih =>
    obtain ⟨middle, here, others⟩ := lexes
    refine .cons (List.forall_mem_map.2 fun lexeme mem => ?_) (ih others)
    exact (others.left_bounds lexeme mem).2.trans_lt here.left_bounds.1

/-- A lexeme in front of a cut stands there if what is behind the cut is taken away. -/
theorem Lexeme.At.truncate (here : lexeme.At admits (text ++ rest) (after ++ rest))
    (uncut : Uncut after rest) : (lexeme.before rest).At admits text after := by
  have spelled := here.spelled
  rw [← List.append_assoc] at spelled
  obtain ⟨same, gap⟩ := skip_of_append spelled
  refine ⟨same, here.before.truncate uncut, ?_, here.apart.trans gap.symm⟩
  have left := here.left
  rw [spelled, List.length_append] at left
  rw [Lexeme.before, same, left, Nat.add_sub_cancel]

/-- Lexemes in front of a cut stand there if what is behind the cut is taken away. -/
theorem Lexes.truncate (lexes : Lexes admits (text ++ rest) lexemes (after ++ rest))
    (uncut : Uncut text rest) : Lexes admits text (lexemes.map (Lexeme.before rest)) after := by
  induction lexemes generalizing text with
  | nil => exact List.append_cancel_right lexes
  | cons lexeme lexemes ih =>
    obtain ⟨middle, here, others⟩ := lexes
    obtain ⟨last, rfl⟩ := (List.suffix_append after rest).trans others.suffix
    obtain ⟨before, split⟩ := here.exists_append
    rw [← List.append_assoc, ← List.append_assoc, List.append_cancel_right_eq] at split
    have uncut' : Uncut last rest := uncut.of_suffix (split ▸ List.suffix_append _ _)
    exact ⟨last, here.truncate uncut', ih others uncut'⟩

/-- No digits of lexemes, or of what is skipped after them, go on into what follows. -/
theorem Lexes.uncut (lexes : Lexes admits (text ++ rest) lexemes (after ++ rest))
    (some : lexemes ≠ []) (skipped : skip (after ++ rest) = rest) : Uncut text rest := by
  induction lexemes generalizing text with
  | nil => exact absurd rfl some
  | cons lexeme lexemes ih =>
    obtain ⟨middle, here, others⟩ := lexes
    obtain ⟨last, rfl⟩ := (List.suffix_append after rest).trans others.suffix
    obtain ⟨before, split⟩ := here.exists_append
    rw [← List.append_assoc, ← List.append_assoc, List.append_cancel_right_eq] at split
    have inner : Uncut last rest := by
      cases lexemes with
      | nil =>
        obtain rfl : after = last := List.append_cancel_right others
        exact uncut_of_skip skipped
      | cons => exact ih others (by simp)
    rw [split]
    cases last with
    | nil => simpa using here.before.uncut.append here.before.ne_nil before
    | cons c last => exact inner.append (by simp) (before ++ lexeme.text)

end Lexing

end ThriftIdl
