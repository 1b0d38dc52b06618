import ThriftIdl.Proofs.Reader.Lexemes

/-!
# Direct reading of elements

The elements of a list, a map or an enumeration have separators between them, and perhaps one after
the last. Direct reading gives them exactly where lexemes spell them and the mark follows that
closes the body (`spelled_separated`, `gives_separated`), if this is so for a single element. An
element that ends with an integer is spelled only where nothing goes on with the number, which
holds before every separator and before every mark.
-/
namespace ThriftIdl.Reader

open Readable Text

variable {text rest : List Char}

/-- What begins with a gap goes on with no number. -/
theorem numberStop_of_hasGap (gap : hasGap text) : NumberStop text := by
  intro c mem
  cases text with
  | nil => cases mem
  | cons d text =>
    obtain rfl : d = c := by simpa using mem
    have opens : opensGap d := by
      by_contra closed
      simp only [opensGap, Bool.or_eq_true, decide_eq_true_eq, not_or] at closed
      have nothing : afterSeparator? (d :: text) = none :=
        afterSeparator?_cons_eq_none closed.1.1 closed.1.2 closed.2
      simp [hasGap, nothing] at gap
    simp only [opensGap, isBlank, Bool.or_eq_true, decide_eq_true_eq] at opens
    rcases opens with ((((rfl | rfl) | rfl) | rfl) | rfl) | rfl <;> decide

/-- Where a mark stands, nothing goes on with a number. -/
theorem numberStop_of_isMark {lexeme : Lexeme} {mark : Mark}
    (here : lexeme.At takesExponent text rest) (isMark : lexeme.IsMark mark) : NumberStop text := by
  cases gap : hasGap text with
  | true => exact numberStop_of_hasGap gap
  | false =>
    have nothing : afterSeparator? text = none := by simpa [hasGap] using gap
    have before := here.before
    rw [isMark] at before
    have spelled := here.spelled
    rw [skip_of_none nothing, show lexeme.text = [mark.char] from before] at spelled
    subst spelled
    cases mark <;> simp [NumberStop, Mark.char, isDigit]

/-- Where a mark stands after skipping, nothing goes on with a number before. -/
theorem numberStop_of_isMark_skip {lexeme : Lexeme} {mark : Mark}
    (here : lexeme.At takesExponent (skip text) rest) (isMark : lexeme.IsMark mark) :
    NumberStop text := by
  have there : Lexeme.At takesExponent text ⟨lexeme.shape, lexeme.text, lexeme.left, hasGap text⟩ rest :=
    ⟨by simpa using here.spelled, here.before, by simpa using here.left, rfl⟩
  exact numberStop_of_isMark there isMark

/-- A reader never leaves more than it found. -/
def Shrinks {α : Type} (rule : Reader (List Char) α) : Prop :=
  ∀ ⦃text rest : List Char⦄ ⦃value : α⦄, rule.Gives (skip text) value rest →
    rest.length ≤ text.length

/-- Skipping after something or after what it skips ends at the same place. -/
theorem skip_eq_of_or {after : List Char} (same : rest = after ∨ rest = skip after) :
    skip rest = skip after := by
  rcases same with rfl | rfl
  · rfl
  · exact skip_skip after

section Separators

/-- A list separator is read exactly where one is spelled. -/
theorem gives_listSeparator_iff_spelled :
    (∃ value, (listSeparator : Reader (List Char) Char).Gives (skip text) value rest) ↔
      ∃ separator, SeparatorSpelling separator ∧ Lexes takesExponent text separator rest ∧
        separator ≠ [] := by
  rw [exists_gives_listSeparator]
  constructor
  · rintro ⟨lexeme, here, comma | semicolon⟩
    · exact ⟨[lexeme], .comma comma, ⟨rest, here, rfl⟩, by simp⟩
    · exact ⟨[lexeme], .semicolon semicolon, ⟨rest, here, rfl⟩, by simp⟩
  · rintro ⟨separator, absent | comma | semicolon, lexes, some⟩
    · exact absurd rfl some
    · obtain ⟨_, here, rfl⟩ := lexes
      exact ⟨_, here, .inl comma⟩
    · obtain ⟨_, here, rfl⟩ := lexes
      exact ⟨_, here, .inr semicolon⟩

/-- What may stand as a list separator is spelled. -/
theorem spelled_optional_listSeparator {value : Option Char}
    (given : (optional (listSeparator : Reader (List Char) Char)).Gives (skip text) value rest) :
    ∃ separator after, SeparatorSpelling separator ∧ Lexes takesExponent text separator after ∧
      (rest = after ∨ rest = skip after) ∧ (separator = [] → rest = skip text) := by
  rcases gives_optional.1 given with ⟨c, reads, rfl⟩ | ⟨-, rfl, rfl⟩
  · obtain ⟨separator, spelled, lexes, some⟩ := gives_listSeparator_iff_spelled.1 ⟨c, reads⟩
    exact ⟨separator, rest, spelled, lexes, .inl rfl, fun none => absurd none some⟩
  · exact ⟨[], text, .absent, rfl, .inr rfl, fun _ => rfl⟩

/-- A list separator that may stand somewhere is read where it is spelled. -/
theorem gives_optional_listSeparator {separator : List Lexeme} {after : List Char}
    (spelled : SeparatorSpelling separator) (lexes : Lexes takesExponent text separator after)
    (absent : separator = [] → Faces text fun lexeme => ¬ IsSeparator lexeme) :
    ∃ value rest, (optional (listSeparator : Reader (List Char) Char)).Gives (skip text) value rest ∧
      (rest = after ∨ rest = skip after) := by
  by_cases none : separator = []
  · have refused := (refuses_listSeparator (absent none)).optional
    subst none
    obtain rfl := lexes
    exact ⟨_, _, refused, .inr rfl⟩
  · obtain ⟨c, reads⟩ := gives_listSeparator_iff_spelled.2 ⟨separator, spelled, lexes, none⟩
    exact ⟨some c, after, reads.optional, .inl rfl⟩

/-- What separates two elements is spelled. -/
theorem spelled_elementSeparator {value : Unit}
    (given : (elementSeparator : Reader (List Char) Unit).Gives text value rest) :
    ∃ separator after, SeparatorSpelling separator ∧ Lexes takesExponent text separator after ∧
      rest = skip after ∧ (separator = [] → hasGap text) := by
  have given := gives_skipSeparator_bind.1 given
  cases gap : hasGap text with
  | true =>
    rw [gap] at given
    obtain ⟨found, place, tried, given⟩ := gives_bind.1 given
    have skipped := gives_skipSeparator_bind.1 given
    obtain ⟨-, rfl⟩ := gives_pure.1 skipped
    obtain ⟨separator, after, spelled, lexes, same, -⟩ := spelled_optional_listSeparator tried
    exact ⟨separator, after, spelled, lexes, skip_eq_of_or same, fun _ => rfl⟩
  | false =>
    rw [gap] at given
    obtain ⟨c, place, reads, given⟩ := gives_bind.1 given
    have skipped := gives_skipSeparator_bind.1 given
    obtain ⟨-, rfl⟩ := gives_pure.1 skipped
    obtain ⟨separator, spelled, lexes, some⟩ := gives_listSeparator_iff_spelled.1 ⟨c, reads⟩
    exact ⟨separator, place, spelled, lexes, rfl, fun none => absurd none some⟩

/-- What separates two elements leaves less. -/
theorem length_lt_of_elementSeparator {value : Unit}
    (given : (elementSeparator : Reader (List Char) Unit).Gives text value rest) :
    rest.length < text.length := by
  obtain ⟨separator, after, -, lexes, rfl, gap⟩ := spelled_elementSeparator given
  have less := length_skip_le after
  have taken := lexes.length_le
  cases separator with
  | nil =>
    obtain rfl := lexes
    exact length_skip_lt_iff.2 (gap rfl)
  | cons lexeme separator =>
    simp only [List.length_cons] at taken
    omega

/-- What separates two elements is read where it is spelled. -/
theorem gives_elementSeparator {separator : List Lexeme} {after : List Char}
    (spelled : SeparatorSpelling separator) (lexes : Lexes takesExponent text separator after)
    (absent : separator = [] →
      hasGap text ∧ Faces text fun lexeme => ¬ IsSeparator lexeme) :
    (elementSeparator : Reader (List Char) Unit).Gives text () (skip after) := by
  refine gives_skipSeparator_bind.2 ?_
  cases gap : hasGap text with
  | true =>
    obtain ⟨found, place, reads, same⟩ :=
      gives_optional_listSeparator spelled lexes fun none => (absent none).2
    rw [← skip_eq_of_or same]
    exact reads.bind (gives_skipSeparator_bind.2 (gives_pure.2 ⟨rfl, rfl⟩))
  | false =>
    have some : separator ≠ [] := by
      intro none
      have gap' := (absent none).1
      rw [gap] at gap'
      cases gap'
    obtain ⟨c, reads⟩ := gives_listSeparator_iff_spelled.2 ⟨separator, spelled, lexes, some⟩
    exact reads.bind (gives_skipSeparator_bind.2 (gives_pure.2 ⟨rfl, rfl⟩))

/-- Where there is neither a gap nor a list separator, nothing separates two elements. -/
theorem refuses_elementSeparator (closed : hasGap text = false)
    (faces : Faces text fun lexeme => ¬ IsSeparator lexeme) :
    (elementSeparator : Reader (List Char) Unit).Refuses text := by
  refine refuses_skipSeparator_bind ?_
  rw [closed]
  exact (refuses_listSeparator faces).bind

end Separators

section Soundness

variable {α : Type} {rule : Reader (List Char) α} {item : List Lexeme → α → Prop}

/-- What an element gives is spelled where nothing goes on with a number. -/
def SoundElement (rule : Reader (List Char) α) (item : List Lexeme → α → Prop) : Prop :=
  ∀ ⦃text rest : List Char⦄ ⦃value : α⦄, rule.Gives (skip text) value rest → NumberStop rest →
    ∃ lexemes, Lexes takesExponent text lexemes rest ∧ item lexemes value

/-- A round reads a separator and an element, and leaves less. -/
theorem length_lt_of_round (shrinks : Shrinks rule) {value : α}
    (given : (optional (elementSeparator >>= fun _ => rule)).Gives text (some value) rest) :
    rest.length < text.length := by
  rcases gives_optional.1 given with ⟨_, reads, -⟩ | ⟨-, none, -⟩
  · obtain ⟨_, place, separated, element⟩ := gives_bind.1 reads
    have less := length_lt_of_elementSeparator separated
    obtain ⟨separator, after, -, -, rfl, -⟩ := spelled_elementSeparator separated
    have shorter : rest.length ≤ (skip after).length := shrinks (by rwa [skip_skip])
    omega
  · cases none

/-- The rounds after an element spell a separator and the other elements, up to a last separator. No
number goes on after the element. -/
theorem spelled_rounds (sound : SoundElement rule item) {place : List Char} {values : List α}
    (rounds : Rounds (optional (elementSeparator >>= fun _ => rule)) text values place)
    {last : List Lexeme} {after : List Char} (spelled : SeparatorSpelling last)
    (lexes : Lexes takesExponent place last after) (stop : NumberStop place) :
    NumberStop text ∧ ∃ separator others, SeparatorSpelling separator ∧
      Elements true item others values ∧ (separator = [] → Apart others) ∧
        Lexes takesExponent text (separator ++ others) after := by
  induction rounds with
  | done tried =>
    rcases gives_optional.1 tried with ⟨_, -, impossible⟩ | ⟨-, -, rfl⟩
    · cases impossible
    · exact ⟨stop, last, [], spelled, .nil, fun _ => by simp [Apart], by simpa using lexes⟩
  | @more start _ _ _ _ tried _ ih =>
    rcases gives_optional.1 tried with ⟨_, reads, same⟩ | ⟨-, impossible, -⟩
    · obtain rfl := Option.some.inj same
      obtain ⟨_, _, separated, element⟩ := gives_bind.1 reads
      obtain ⟨stop', separator, others, spelledSeparator, elements, apart, lexesOthers⟩ :=
        ih lexes stop
      obtain ⟨before, middle, spelledBefore, lexesBefore, rfl, gap⟩ :=
        spelled_elementSeparator separated
      obtain ⟨first, lexesFirst, spelledFirst⟩ := sound element stop'
      have here : NumberStop start := by
        rcases spelledBefore with _ | comma | semicolon
        · exact numberStop_of_hasGap (gap rfl)
        · obtain ⟨_, here, -⟩ := lexesBefore
          exact numberStop_of_isMark here comma
        · obtain ⟨_, here, -⟩ := lexesBefore
          exact numberStop_of_isMark here semicolon
      refine ⟨here, before, first ++ (separator ++ others), spelledBefore,
        .cons spelledFirst spelledSeparator elements fun _ => apart, ?_, ?_⟩
      · rintro rfl
        obtain rfl := lexesBefore
        have whole : Lexes takesExponent middle (first ++ (separator ++ others)) after :=
          lexes_append.2 ⟨_, lexesFirst, lexesOthers⟩
        exact whole.apart (gap rfl)
      · exact lexes_append.2 ⟨middle, lexesBefore, lexes_append.2 ⟨_, lexesFirst, lexesOthers⟩⟩
    · cases impossible

/-- Elements are spelled if single ones are and a mark follows them. -/
theorem spelled_separated (sound : SoundElement rule item) (shrinks : Shrinks rule)
    {values : List α} (given : (separated rule).Gives (skip text) values rest)
    {closing : Lexeme} {mark : Mark} {place : List Char} (here : closing.At takesExponent rest place)
    (isMark : closing.IsMark mark) :
    ∃ lexemes after, Lexes takesExponent text lexemes after ∧ Elements true item lexemes values ∧
      rest = skip after := by
  obtain ⟨found, middle, tried, given⟩ := gives_bind.1 given
  rcases gives_optional.1 tried with ⟨first, reads, rfl⟩ | ⟨-, rfl, rfl⟩
  · obtain ⟨others, end', repeated, given⟩ := gives_bind.1 given
    have given := gives_skipSeparator_bind.1 given
    obtain ⟨_, trailing, tried, given⟩ := gives_bind.1 given
    have skipped := gives_skipSeparator_bind.1 given
    obtain ⟨rfl, rfl⟩ := gives_pure.1 skipped
    obtain ⟨last, after, spelledLast, lexesLast, same, absent⟩ :=
      spelled_optional_listSeparator tried
    have stop : NumberStop end' := by
      rcases spelledLast with _ | comma | semicolon
      · rw [absent rfl, skip_skip] at here
        exact numberStop_of_isMark_skip here isMark
      · obtain ⟨_, here, -⟩ := lexesLast
        exact numberStop_of_isMark here comma
      · obtain ⟨_, here, -⟩ := lexesLast
        exact numberStop_of_isMark here semicolon
    have rounds := (gives_many fun given => length_lt_of_round shrinks given).1 repeated
    obtain ⟨stop', separator, others', spelledSeparator, elements, apart, lexesOthers⟩ :=
      spelled_rounds sound rounds spelledLast lexesLast stop
    obtain ⟨lexemes, lexesFirst, spelledFirst⟩ := sound reads stop'
    exact ⟨_, after, lexes_append.2 ⟨_, lexesFirst, lexesOthers⟩,
      .cons spelledFirst spelledSeparator elements fun _ => apart, skip_eq_of_or same⟩
  · obtain ⟨rfl, rfl⟩ := gives_pure.1 given
    exact ⟨[], text, rfl, .nil, rfl⟩

/-- Reading elements ends where nothing can be skipped. -/
theorem skip_of_separated {values : List α}
    (given : (separated rule).Gives (skip text) values rest) : skip rest = rest := by
  obtain ⟨found, middle, tried, given⟩ := gives_bind.1 given
  rcases gives_optional.1 tried with ⟨first, reads, rfl⟩ | ⟨-, rfl, rfl⟩
  · obtain ⟨_, _, -, given⟩ := gives_bind.1 given
    have given := gives_skipSeparator_bind.1 given
    obtain ⟨_, _, -, given⟩ := gives_bind.1 given
    have skipped := gives_skipSeparator_bind.1 given
    obtain ⟨-, rfl⟩ := gives_pure.1 skipped
    exact skip_skip _
  · obtain ⟨-, rfl⟩ := gives_pure.1 given
    exact skip_skip _

/-- Elements up to the mark that closes the body are spelled if single ones are. -/
theorem spelled_separated_bind (mark : Mark) (sound : SoundElement rule item)
    (shrinks : Shrinks rule) {production : String} {β : Type} {next : List α → Reader (List Char) β}
    {value : β}
    (given : (separated rule >>= fun values =>
      character mark.char production >>= fun _ => next values).Gives (skip text) value rest) :
    ∃ (lexemes : List Lexeme) (values : List α) (closing : Lexeme) (after : List Char),
      Lexes takesExponent text (lexemes ++ [closing]) after ∧ Elements true item lexemes values ∧
        closing.IsMark mark ∧ (next values).Gives after value rest := by
  obtain ⟨values, middle, elements, given⟩ := gives_bind.1 given
  rw [← skip_of_separated elements] at given
  obtain ⟨closing, place, here, isMark, given⟩ := (gives_character_bind mark).1 given
  obtain ⟨lexemes, after, lexes, spelled, same⟩ :=
    spelled_separated sound shrinks elements here isMark
  refine ⟨lexemes, values, ⟨closing.shape, closing.text, closing.left, hasGap after⟩, place,
    lexes_append.2 ⟨after, lexes, place, ⟨?_, here.before, ?_, rfl⟩, rfl⟩, spelled, isMark, given⟩
  · rw [← skip_skip, ← same]
    exact here.spelled
  · rw [← skip_skip, ← same]
    exact here.left

end Soundness

section Completeness

variable {α : Type}

/-- What makes a reader read the elements of a body, up to the mark that closes it, where they are
spelled. -/
structure CompleteElement (rule : Reader (List Char) α) (item : List Lexeme → α → Prop)
    (closing : Mark) : Prop where
  /-- What may follow an element: a list separator, the closing mark or another element. -/
  gives : ∀ ⦃text rest : List Char⦄ ⦃lexemes : List Lexeme⦄ ⦃value : α⦄,
    Lexes takesExponent text lexemes rest → item lexemes value →
      (∃ lexeme after, lexeme.At takesExponent rest after ∧
        (IsSeparator lexeme ∨ lexeme.IsMark closing ∨
          ∃ others value, item (lexeme :: others) value)) → rule.Gives (skip text) value rest
  /-- An element begins with a lexeme that is no list separator. -/
  begins : ∀ ⦃lexemes : List Lexeme⦄ ⦃value : α⦄, item lexemes value →
    ∃ first others, lexemes = first :: others ∧ ¬ IsSeparator first
  /-- Where the closing mark stands, no element is read. -/
  refuses : ∀ ⦃text rest : List Char⦄ ⦃lexeme : Lexeme⦄, lexeme.At takesExponent text rest →
    lexeme.IsMark closing → rule.Refuses (skip text)
  /-- An element never leaves more than it found. -/
  shrinks : Shrinks rule
  /-- The closing mark is no list separator. -/
  closes : closing ≠ .comma ∧ closing ≠ .semicolon

variable {rule : Reader (List Char) α} {item : List Lexeme → α → Prop} {mark : Mark}
  {closing : Lexeme} {after end' : List Char}

/-- The closing mark is no list separator. -/
theorem CompleteElement.not_isSeparator (complete : CompleteElement rule item mark)
    (isMark : closing.IsMark mark) : ¬ IsSeparator closing := by
  rintro (comma | semicolon)
  · exact complete.closes.1 (isMark.unique comma)
  · exact complete.closes.2 (isMark.unique semicolon)

/-- What follows an element is one of the three things that may follow. -/
theorem CompleteElement.follows (complete : CompleteElement rule item mark)
    {separator others : List Lexeme} {values : List α} (spelled : SeparatorSpelling separator)
    (elements : Elements true item others values)
    (lexes : Lexes takesExponent text (separator ++ others) after)
    (here : closing.At takesExponent after end') (isMark : closing.IsMark mark) :
    ∃ lexeme rest, lexeme.At takesExponent text rest ∧
      (IsSeparator lexeme ∨ lexeme.IsMark mark ∨
        ∃ others value, item (lexeme :: others) value) := by
  rcases spelled with _ | comma | semicolon
  · cases elements with
    | nil =>
      obtain rfl := lexes
      exact ⟨closing, end', here, .inr (.inl isMark)⟩
    | cons spelledFirst _ _ _ =>
      obtain ⟨first, tail, rfl, -⟩ := complete.begins spelledFirst
      obtain ⟨rest, there, -⟩ := lexes
      exact ⟨first, rest, there, .inr (.inr ⟨_, _, spelledFirst⟩)⟩
  · obtain ⟨rest, there, -⟩ := lexes
    exact ⟨_, rest, there, .inl (.inl comma)⟩
  · obtain ⟨rest, there, -⟩ := lexes
    exact ⟨_, rest, there, .inl (.inr semicolon)⟩

/-- After an element, the others are read in rounds, up to a last separator. -/
theorem rounds_of_elements (complete : CompleteElement rule item mark)
    {separator others : List Lexeme} {values : List α} (spelled : SeparatorSpelling separator)
    (elements : Elements true item others values) (apart : separator = [] → Apart others)
    (lexes : Lexes takesExponent text (separator ++ others) after)
    (here : closing.At takesExponent after end') (isMark : closing.IsMark mark) :
    ∃ last place, SeparatorSpelling last ∧ Lexes takesExponent place last after ∧
      Rounds (optional (elementSeparator >>= fun _ => rule)) text values place := by
  induction elements generalizing text separator with
  | nil =>
    rw [List.append_nil] at lexes
    refine ⟨separator, text, spelled, lexes, .done (Refuses.optional ?_)⟩
    have closed : rule.Refuses (skip after) := complete.refuses here isMark
    by_cases bare : separator = []
    · subst bare
      obtain rfl := lexes
      have faces : Faces after fun lexeme => ¬ IsSeparator lexeme :=
        here.faces (complete.not_isSeparator isMark)
      cases gap : hasGap after with
      | true => exact (gives_elementSeparator .absent rfl fun _ => ⟨gap, faces⟩).bind_refuses closed
      | false => exact (refuses_elementSeparator gap faces).bind
    · exact (gives_elementSeparator spelled lexes fun none => absurd none bare).bind_refuses closed
  | cons spelledFirst spelledNext elements apart' ih =>
    obtain ⟨middle, lexesSeparator, lexesOthers⟩ := lexes_append.1 lexes
    obtain ⟨place, lexesFirst, lexesNext⟩ := lexes_append.1 lexesOthers
    obtain ⟨first, tail, rfl, different⟩ := complete.begins spelledFirst
    obtain ⟨last, end'', spelledLast, lexesLast, rounds⟩ := ih spelledNext (apart' rfl) lexesNext
    refine ⟨last, end'', spelledLast, lexesLast, .more (Gives.optional ?_) rounds⟩
    refine (gives_elementSeparator spelled lexesSeparator fun none => ?_).bind ?_
    · subst none
      obtain rfl := lexesSeparator
      refine ⟨lexesOthers.hasGap (by simp) (apart rfl), ?_⟩
      obtain ⟨_, there, -⟩ := lexesFirst
      exact there.faces different
    · exact complete.gives lexesFirst spelledFirst
        (complete.follows spelledNext elements lexesNext here isMark)

/-- Elements that are spelled before the mark that closes the body are read up to it. -/
theorem gives_separated (complete : CompleteElement rule item mark) {lexemes : List Lexeme}
    {values : List α} (elements : Elements true item lexemes values)
    (lexes : Lexes takesExponent text lexemes after) (here : closing.At takesExponent after end')
    (isMark : closing.IsMark mark) :
    (separated rule).Gives (skip text) values (skip after) := by
  cases elements with
  | nil =>
    obtain rfl := lexes
    exact (complete.refuses here isMark).optional.bind (gives_pure.2 ⟨rfl, rfl⟩)
  | cons spelledFirst spelledNext elements apart =>
    obtain ⟨middle, lexesFirst, lexesNext⟩ := lexes_append.1 lexes
    obtain ⟨last, place, spelledLast, lexesLast, rounds⟩ :=
      rounds_of_elements complete spelledNext elements (apart rfl) lexesNext here isMark
    have reads := complete.gives lexesFirst spelledFirst
      (complete.follows spelledNext elements lexesNext here isMark)
    refine reads.optional.bind ?_
    refine ((gives_many fun given => length_lt_of_round complete.shrinks given).2 rounds).bind ?_
    refine gives_skipSeparator_bind.2 ?_
    obtain ⟨found, trailing, tried, same⟩ := gives_optional_listSeparator spelledLast lexesLast
      fun none => by
        subst none
        obtain rfl := lexesLast
        exact here.faces (complete.not_isSeparator isMark)
    rw [← skip_eq_of_or same]
    exact tried.bind (gives_skipSeparator_bind.2 (gives_pure.2 ⟨rfl, rfl⟩))

/-- Elements before the closing mark are read up to it, and the mark after them. -/
theorem gives_separated_bind (complete : CompleteElement rule item mark) {lexemes : List Lexeme}
    {values : List α} {production : String} {β : Type} {next : List α → Reader (List Char) β} {value : β}
    (elements : Elements true item lexemes values)
    (lexes : Lexes takesExponent text (lexemes ++ [closing]) after) (isMark : closing.IsMark mark)
    (given : (next values).Gives after value end') :
    (separated rule >>= fun values =>
      character mark.char production >>= fun _ => next values).Gives (skip text) value end' := by
  obtain ⟨_, lexesElements, _, here, rfl⟩ := lexes_append.1 lexes
  refine (gives_separated complete elements lexesElements here isMark).bind ?_
  exact (gives_character_bind mark).2 ⟨_, _, here, isMark, given⟩

end Completeness

end ThriftIdl.Reader
