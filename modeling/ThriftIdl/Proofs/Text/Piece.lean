import ThriftIdl.Proofs.Text.Separated
import ThriftIdl.Reader.Lexical

/-!
# What a reader sees of a separated text

A reader takes a token off a text in one piece or, if it is a number, in several. What is left of a
token is followed by a filler, and nothing that is cut off reaches into the filler (`Fenced`). So what
is cut off a piece is the same whatever fillers and tokens follow it (`Cuts`).
-/
namespace ThriftIdl

open Text

/-- A text is empty or begins with what opens a blank or a comment. -/
def Fenced (text : List Char) : Prop := ∀ c ∈ text.head?, opensGap c

/-- The characters of tokens other than literals. -/
def isPlain (c : Char) : Bool :=
  !opensGap c && c ≠ Quote.single.char && c ≠ Quote.double.char

/-- Where more digits than can be converted stand in a row, they are as many as is allowed. -/
def RunsWithin (runs : Nat → Prop) (text : List Char) : Prop :=
  ∀ digits, digits <:+: text → (∀ c ∈ digits, isDigit c) → digitLimit < digits.length →
    runs digits.length

/-- What is left of a token: a literal as a whole, or characters that belong to other tokens, with so
many digits in a row as are allowed. -/
def Piece (runs : Nat → Prop) (text : List Char) : Prop :=
  IsLiteral text ∨ (∀ c ∈ text, isPlain c) ∧ RunsWithin runs text

variable {runs : Nat → Prop}

section Fences

variable {text rest : List Char}

/-- Nothing in what opens a blank or a comment belongs to a word or a number. -/
theorem not_opensGap_of_continuesName {c : Char} (continued : continuesName c) : ¬ opensGap c := by
  intro opens
  simp only [opensGap, isBlank, Bool.or_eq_true, decide_eq_true_eq] at opens
  rcases opens with ((((rfl | rfl) | rfl) | rfl) | rfl) | rfl <;> revert continued <;> decide

/-- The end of a text is a fence. -/
theorem fenced_nil : Fenced [] := fun c head => by cases head

/-- A fence is not the rest of a word. -/
theorem Fenced.closed (fenced : Fenced rest) : Closed rest := fun c head continued =>
  not_opensGap_of_continuesName continued (fenced c head)

/-- A fence is not the rest of a number. -/
theorem Fenced.foreign (fenced : Fenced rest) : Foreign rest := by
  intro c head
  have opens := fenced c head
  simp only [opensGap, isBlank, Bool.or_eq_true, decide_eq_true_eq] at opens
  rcases opens with ((((rfl | rfl) | rfl) | rfl) | rfl) | rfl <;> decide

/-- A filler begins with a fence. -/
theorem Filler.fenced (filler : Filler text) : Fenced text := by
  intro c head
  cases filler with
  | nil => cases head
  | blank blank _ =>
    obtain rfl := Option.some.inj head
    simp [opensGap, blank]
  | slashes | hash | block =>
    obtain rfl := Option.some.inj head
    decide

/-- Where tokens stand between fillers there is a fence first. -/
theorem Spaced.fenced {tokens : List (List Char)} (spaced : Spaced tokens text) : Fenced text := by
  cases spaced with
  | nil filler => exact filler.fenced
  | @cons gap token rest tokens filler some _ =>
    obtain ⟨c, gap, rfl⟩ := List.exists_cons_of_ne_nil some
    exact filler.fenced

end Fences

section Pieces

variable {piece rest : List Char}

/-- Fewer characters have no other digits in a row. -/
theorem RunsWithin.inner {part : List Char} (within : RunsWithin runs piece) (inside : part <:+: piece) :
    RunsWithin runs part :=
  fun digits run => within digits (run.trans inside)

/-- Nothing is a piece. -/
theorem piece_nil : Piece runs [] := by
  refine .inr ⟨List.forall_mem_nil _, fun digits inside _ many => ?_⟩
  rw [List.eq_nil_of_infix_nil inside] at many
  cases many

/-- An integer that cannot be converted has as many digits in a row as are allowed. -/
theorem RunsWithin.integer {integer : List Char} (within : RunsWithin runs piece)
    (inside : integer <:+: piece) (isInteger : IsInteger integer)
    (long : isConvertible integer = false) :
    piece ≠ [] ∧ digitLimit < digitCount integer ∧ runs (digitCount integer) := by
  have many : digitLimit < digitCount integer := Nat.lt_of_not_le (of_decide_eq_false long)
  obtain ⟨sign, digits, rfl, isSign, some, all⟩ := isInteger
  have counted := digitCount_append isSign all
  have run : digits <:+: piece := (List.suffix_append sign digits).isInfix.trans inside
  refine ⟨?_, many, ?_⟩
  · rintro rfl
    exact some (List.eq_nil_of_infix_nil run)
  · rw [counted] at many ⊢
    exact within digits run all many

/-- A literal begins with its quote. -/
theorem IsLiteral.exists_cons (isLiteral : IsLiteral piece) :
    ∃ (quote : Quote) (tail : List Char), piece = quote.char :: tail := by
  obtain ⟨quote, value, rfl, -⟩ := isLiteral
  exact ⟨quote, _, rfl⟩

/-- No number begins with a quote. -/
theorem IsLiteral.noNumber {piece : List Char} (isLiteral : IsLiteral piece) : NoNumber piece := by
  obtain ⟨quote, tail, rfl⟩ := isLiteral.exists_cons
  intro c head
  obtain rfl := Option.some.inj head
  cases quote <;> decide

/-- What continues a name, and a sign, belong to other tokens than literals. -/
theorem isPlain_of_continuesName {c : Char} (belongs : continuesName c ∨ c = '+' ∨ c = '-') :
    isPlain c := by
  by_contra other
  have special : opensGap c ∨ c = Quote.single.char ∨ c = Quote.double.char := by
    by_contra none
    simp only [not_or] at none
    exact other (by simp [isPlain, none])
  simp only [opensGap, isBlank, Bool.or_eq_true, decide_eq_true_eq] at special
  rcases special with (((((rfl | rfl) | rfl) | rfl) | rfl) | rfl) | rfl | rfl <;>
    revert belongs <;> decide

/-- The characters of a sign are plain. -/
theorem isPlain_of_isSign {sign : List Char} (isSign : IsSign sign) : ∀ c ∈ sign, isPlain c := by
  rcases isSign with rfl | rfl | rfl
  · exact fun _ mem => absurd mem List.not_mem_nil
  · exact List.forall_mem_singleton.2 (by decide)
  · exact List.forall_mem_singleton.2 (by decide)

/-- Digits are plain. -/
theorem isPlain_of_digits {digits : List Char} (all : ∀ c ∈ digits, isDigit c) :
    ∀ c ∈ digits, isPlain c := fun c mem =>
  isPlain_of_continuesName (.inl (continuesName_of_isDigit (all c mem)))

/-- The characters of an integer are plain. -/
theorem isPlain_of_isInteger {integer : List Char} (isInteger : IsInteger integer) :
    ∀ c ∈ integer, isPlain c := by
  obtain ⟨sign, digits, rfl, isSign, isDigits⟩ := isInteger
  exact List.forall_mem_append.2 ⟨isPlain_of_isSign isSign, isPlain_of_digits isDigits.2⟩

/-- The characters of a number are plain. -/
theorem Number.WellFormed.isPlain {number : Number} (formed : number.WellFormed) :
    ∀ c ∈ number.text, isPlain c := by
  have fraction : ∀ c ∈ number.fraction.elim [] ('.' :: ·), ThriftIdl.isPlain c := by
    cases same : number.fraction with
    | none => simp
    | some digits =>
      exact List.forall_mem_cons.2 ⟨by decide, isPlain_of_digits (formed.fraction digits same).2⟩
  have power : ∀ c ∈ number.power, ThriftIdl.isPlain c := by
    rw [Number.power]
    cases same : number.exponent with
    | none => simp
    | some power =>
      obtain ⟨letter, isInteger⟩ := formed.exponent power same
      refine List.forall_mem_cons.2 ⟨?_, isPlain_of_isInteger isInteger⟩
      rcases letter with letter | letter <;> rw [letter] <;> decide
  rw [Number.text_eq]
  exact List.forall_mem_append.2 ⟨isPlain_of_isSign formed.sign, List.forall_mem_append.2
    ⟨isPlain_of_digits formed.whole, List.forall_mem_append.2 ⟨fraction, power⟩⟩⟩

end Pieces

/-- Two texts in which the same tokens are left, of which the first may have been begun. -/
inductive Alike (runs : Nat → Prop) : List Char → List Char → Prop where
  /-- What is left of a token, and tokens between fillers after it. -/
  | intro {piece rest rest' : List Char} {tokens : List (List Char)} : Piece runs piece →
      (∀ token ∈ tokens, Piece runs token ∧ token ≠ []) → Spaced tokens rest → Spaced tokens rest' →
      Alike runs (piece ++ rest) (piece ++ rest')

section Alike

variable {text text' : List Char}

/-- The last text that is left is alike to itself. -/
theorem alike_nil : Alike runs [] [] :=
  @Alike.intro runs [] [] [] [] piece_nil (by simp) (.nil .nil) (.nil .nil)

/-- What skipping does to texts that are alike: nothing, if a token has been begun, and else it leads to
the next token in both or to the end of both. -/
theorem Alike.cases (alike : Alike runs text text') :
    (hasGap text = false ∧ hasGap text' = false) ∨
    (hasGap text ∧ hasGap text' ∧ Alike runs (skip text) (skip text')) ∨
    (Filler text ∧ Filler text') := by
  have token {c : Char} {piece rest : List Char} (isPiece : Piece runs (c :: piece)) :
      skip (c :: (piece ++ rest)) = c :: (piece ++ rest) := by
    refine skip_cons_of_not_opensGap ?_ _
    rcases isPiece with ⟨quote, value, same, -⟩ | plain
    · obtain ⟨rfl, -⟩ := List.cons.inj same
      cases quote <;> decide
    · have inner := plain.1 c List.mem_cons_self
      simp only [isPlain, Bool.and_eq_true, Bool.not_eq_true'] at inner
      simp [inner.1.1]
  obtain ⟨isPiece, each, spaced, spaced'⟩ := alike
  rename_i piece rest rest' tokens
  cases piece with
  | cons c piece =>
    refine .inl ⟨?_, ?_⟩ <;> rw [hasGap, List.cons_append, skip_eq_self_iff.1 (token isPiece)] <;> rfl
  | nil =>
    cases spaced with
    | nil filler =>
      cases spaced' with
      | nil filler' => exact .inr (.inr ⟨filler, filler'⟩)
    | @cons gap first rest tokens filler some spaced =>
      cases spaced' with
      | @cons gap' _ rest' _ filler' some' spaced' =>
        rw [List.forall_mem_cons] at each
        obtain ⟨⟨isPiece, nonempty⟩, each⟩ := each
        obtain ⟨c, first, rfl⟩ := List.exists_cons_of_ne_nil nonempty
        refine .inr (.inl ⟨filler.hasGap some _, filler'.hasGap some' _, ?_⟩)
        rw [List.nil_append, List.nil_append, filler.skip, filler'.skip, List.cons_append,
          List.cons_append, token isPiece, token isPiece]
        exact .intro isPiece each spaced spaced'

/-- Nothing is left of a filler when it is skipped. -/
theorem Filler.skip_eq_nil (filler : Filler text) : ThriftIdl.skip text = [] := by
  have skipped := filler.skip []
  rwa [List.append_nil] at skipped

/-- Texts that are alike are alike after skipping. -/
theorem Alike.skip (alike : Alike runs text text') :
    Alike runs (ThriftIdl.skip text) (ThriftIdl.skip text') := by
  rcases alike.cases with ⟨none, none'⟩ | ⟨-, -, alike⟩ | ⟨filler, filler'⟩
  · rw [skip_of_none (by simpa [hasGap] using none), skip_of_none (by simpa [hasGap] using none')]
    exact alike
  · exact alike
  · rw [filler.skip_eq_nil, filler'.skip_eq_nil]
    exact alike_nil

end Alike

end ThriftIdl
