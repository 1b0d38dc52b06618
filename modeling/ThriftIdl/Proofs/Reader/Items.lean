import ThriftIdl.Proofs.Reader.Elements

/-!
# Direct reading of items

Fields and functions delimit themselves, so that they follow each other without anything between
them. Reading as many as there are gives exactly the items that lexemes spell in a row before the
mark that closes the body (`spelled_items`, `gives_items`), and between two marks it gives the items
of a body as a whole (`spelled_bracketed_bind`, `gives_bracketed_bind`). An item may leave the blanks
after it or take them, which makes no difference to the items after it.
-/
namespace ThriftIdl.Reader

open Readable

variable {α : Type} {rule : Reader (List Char) α} {item : List Lexeme → α → Prop}
  {text rest : List Char}

/-- Items, as many as there are. -/
def items (rule : Reader (List Char) α) : Reader (List Char) (List α) :=
  many (do
    let _ ← skipSeparator
    optional rule)

/-- What an item gives is spelled by at least one lexeme. -/
def SoundItem (rule : Reader (List Char) α) (item : List Lexeme → α → Prop) : Prop :=
  ∀ ⦃text rest : List Char⦄ ⦃value : α⦄, rule.Gives (skip text) value rest →
    ∃ lexemes after, Lexes takesExponent text lexemes after ∧ item lexemes value ∧ lexemes ≠ [] ∧
      (rest = after ∨ rest = skip after)

/-- A round that reads an item leaves less. -/
theorem SoundItem.length_lt (sound : SoundItem rule item) {value : α}
    (given : (skipSeparator >>= fun _ => optional rule).Gives text (some value) rest) :
    rest.length < text.length := by
  rcases gives_optional.1 (gives_skipSeparator_bind.1 given) with ⟨_, reads, -⟩ | ⟨-, none, -⟩
  · obtain ⟨lexemes, after, lexes, -, some, same⟩ := sound reads
    have taken := lexes.length_le
    have positive := List.length_pos_iff.2 some
    have less := length_skip_le after
    rcases same with rfl | rfl <;> omega
  · cases none

/-- Items that are read are spelled in a row. -/
theorem spelled_items (sound : SoundItem rule item) {values : List α}
    (given : (items rule).Gives text values rest) :
    ∃ lexemes after, Lexes takesExponent text lexemes after ∧ Sequence item lexemes values ∧
      rest = skip after := by
  have rounds := (gives_many fun given => sound.length_lt given).1 given
  -- The first item of a round is spelled from wherever skipping leads to the same place.
  suffices from' : ∀ text', skip text' = skip text → ∃ lexemes after,
      Lexes takesExponent text' lexemes after ∧ Sequence item lexemes values ∧ rest = skip after from
    from' text rfl
  clear given
  induction rounds with
  | done tried =>
    intro text' same
    rcases gives_optional.1 (gives_skipSeparator_bind.1 tried) with ⟨_, -, some⟩ | ⟨-, -, rfl⟩
    · cases some
    · exact ⟨[], text', rfl, .nil, same.symm⟩
  | more tried _ ih =>
    intro text' same
    rcases gives_optional.1 (gives_skipSeparator_bind.1 tried) with ⟨_, reads, value⟩ | ⟨-, none, -⟩
    · obtain rfl := Option.some.inj value
      rw [← same] at reads
      obtain ⟨first, after, lexesFirst, spelledFirst, -, same'⟩ := sound reads
      obtain ⟨others, end', lexesOthers, spelledOthers, ends⟩ := ih after (skip_eq_of_or same').symm
      exact ⟨first ++ others, end', lexes_append.2 ⟨after, lexesFirst, lexesOthers⟩,
        .cons spelledFirst spelledOthers, ends⟩
    · cases none

/-- What makes a reader read the items of a body, up to the mark that closes it, where they are
spelled; `follow` is what may follow an item. -/
structure CompleteItem (rule : Reader (List Char) α) (item : List Lexeme → α → Prop)
    (follow : List Char → Prop) (closing : Mark) : Prop where
  /-- An item is read before what may follow it. -/
  gives : ∀ ⦃text after : List Char⦄ ⦃lexemes : List Lexeme⦄ ⦃value : α⦄,
    Lexes takesExponent text lexemes after → item lexemes value → follow after →
      ∃ rest, rule.Gives (skip text) value rest ∧ (rest = after ∨ rest = skip after)
  /-- Another item may follow. -/
  next : ∀ ⦃text after : List Char⦄ ⦃lexemes : List Lexeme⦄ ⦃value : α⦄,
    Lexes takesExponent text lexemes after → item lexemes value → follow text
  /-- The closing mark may follow. -/
  closes : ∀ ⦃text rest : List Char⦄ ⦃lexeme : Lexeme⦄, lexeme.At takesExponent text rest →
    lexeme.IsMark closing → follow text
  /-- Where the closing mark stands, no item is read. -/
  refuses : ∀ ⦃text rest : List Char⦄ ⦃lexeme : Lexeme⦄, lexeme.At takesExponent text rest →
    lexeme.IsMark closing → rule.Refuses (skip text)
  /-- Items are spelled. -/
  sound : SoundItem rule item

/-- Items that are spelled in a row before the mark that closes the body are read up to it. -/
theorem gives_items {follow : List Char → Prop} {mark : Mark}
    (complete : CompleteItem rule item follow mark) {lexemes : List Lexeme} {values : List α}
    (spelled : Sequence item lexemes values) {after : List Char}
    (lexes : Lexes takesExponent text lexemes after) {closing : Lexeme} {end' : List Char}
    (here : closing.At takesExponent after end') (isMark : closing.IsMark mark) :
    (items rule).Gives text values (skip after) := by
  refine (gives_many fun given => complete.sound.length_lt given).2 ?_
  suffices from' : ∀ place, skip place = skip text →
      Rounds (skipSeparator >>= fun _ => optional rule) place values (skip after) from
    from' text rfl
  induction spelled generalizing text with
  | nil =>
    intro place same
    obtain rfl := lexes
    refine .done (gives_skipSeparator_bind.2 ?_)
    rw [same]
    exact (complete.refuses here isMark).optional
  | cons spelledFirst spelledOthers ih =>
    intro place same
    obtain ⟨middle, lexesFirst, lexesOthers⟩ := lexes_append.1 lexes
    have follow : follow middle := by
      cases spelledOthers with
      | nil =>
        obtain rfl := lexesOthers
        exact complete.closes here isMark
      | cons spelledNext _ =>
        obtain ⟨_, lexesNext, -⟩ := lexes_append.1 lexesOthers
        exact complete.next lexesNext spelledNext
    obtain ⟨place', reads, same'⟩ := complete.gives lexesFirst spelledFirst follow
    refine .more (gives_skipSeparator_bind.2 ?_) (ih lexesOthers place' (skip_eq_of_or same'))
    rw [same]
    exact reads.optional

section Bracketed

variable {β : Type} {production production' : String} {next : List α → Reader (List Char) β} {value : β}

/-- Items between two marks are spelled. -/
theorem spelled_bracketed_bind (first last : Mark) (sound : SoundItem rule item)
    (given : (character first.char production >>= fun _ => items rule >>= fun values =>
      character last.char production' >>= fun _ => next values).Gives (skip text) value rest) :
    ∃ (opening closing : Lexeme) (members : List Lexeme) (values : List α) (after : List Char),
      Lexes takesExponent text (opening :: (members ++ [closing])) after ∧ opening.IsMark first ∧
        Sequence item members values ∧ closing.IsMark last ∧ (next values).Gives after value rest := by
  obtain ⟨opening, _, atOpening, isOpening, given⟩ := (gives_character_bind first).1 given
  obtain ⟨values, _, reads, given⟩ := gives_bind.1 given
  obtain ⟨members, _, lexesMembers, spelled, rfl⟩ := spelled_items sound reads
  obtain ⟨closing, after, atClosing, isClosing, given⟩ := (gives_character_bind last).1 given
  have lexes : Lexes takesExponent text (opening :: (members ++ [closing])) after :=
    ⟨_, atOpening, lexes_append.2 ⟨_, lexesMembers, after, atClosing, rfl⟩⟩
  exact ⟨opening, closing, members, values, after, lexes, isOpening, spelled, isClosing, given⟩

/-- Items between two marks are read where they are spelled. -/
theorem gives_bracketed_bind (first last : Mark) {follow : List Char → Prop}
    (complete : CompleteItem rule item follow last) {opening closing : Lexeme}
    {members : List Lexeme} {values : List α} {after : List Char}
    (lexes : Lexes takesExponent text (opening :: (members ++ [closing])) after)
    (isOpening : opening.IsMark first) (spelled : Sequence item members values)
    (isClosing : closing.IsMark last) (given : (next values).Gives after value rest) :
    (character first.char production >>= fun _ => items rule >>= fun values =>
      character last.char production' >>= fun _ => next values).Gives (skip text) value rest := by
  obtain ⟨_, atOpening, lexes⟩ := lexes
  obtain ⟨_, lexesMembers, _, atClosing, rfl⟩ := lexes_append.1 lexes
  refine (gives_character_bind first).2 ⟨_, _, atOpening, isOpening, ?_⟩
  refine (gives_items complete spelled lexesMembers atClosing isClosing).bind ?_
  exact (gives_character_bind last).2 ⟨_, _, atClosing, isClosing, given⟩

end Bracketed

end ThriftIdl.Reader
