import ThriftIdl.Proofs.Reader.Elements
import ThriftIdl.Proofs.Text.Piece

/-!
# Bodies between brackets

The elements of a body stand one after the other, each with a joint after it: blanks, comments and
list separators. Reading takes a joint and an element in each round and goes back to the joint if no
element follows it. With at most one list separator in each joint it ends at the closing bracket; a
list separator before the first element, or the second one of a joint, is where it ends otherwise
(`separated_of_laidOut`).
-/
namespace ThriftIdl

open Text

/-- A text begins with none of the characters that may stand after an element, up to the bracket. -/
def Solid (text : List Char) : Prop :=
  ∃ c tail, text = c :: tail ∧ ¬ opensGap c ∧ c ∉ [',', ';', '=']

/-- A text begins with what may stand after an element or a key, and a number is not assigned. -/
def Border (text : List Char) : Prop :=
  (∀ c ∈ text.head?, opensGap c ∨ c ∈ [',', ';', ':', ']', '\x7d']) ∧ (skip text).head? ≠ some '='

/-- Blanks and complete comments with a number of list separators among them. -/
inductive Joint : Nat → List Char → Prop where
  /-- No list separator. -/
  | filler {gap : List Char} : Filler gap → Joint 0 gap
  /-- A first list separator, and what follows it. -/
  | separator {marks : Nat} {gap others : List Char} {c : Char} : Filler gap → c = ',' ∨ c = ';' →
      Joint marks others → Joint (marks + 1) (gap ++ c :: others)

/-- An element in a body. -/
structure Portion (α : Type) where
  /-- The text of the element. -/
  text : List Char
  /-- The value of the element. -/
  value : α
  /-- The joint after the element. -/
  after : List Char
  /-- The number of list separators in the joint. -/
  marks : Nat

section Layout

variable {α : Type}

/-- Some elements with their joints, and the text after them. -/
def laidOut : List (Portion α) → List Char → List Char
  | [], rest => rest
  | portion :: portions, rest => portion.text ++ (portion.after ++ laidOut portions rest)

/-- A body is a first joint and elements with joints after them, of which only the last may be
empty. The elements are read in a given way. -/
structure LaidOut (reads : List Char → α → Prop) (lead : List Char) (marks : Nat)
    (portions : List (Portion α)) : Prop where
  /-- A joint stands before the first element. -/
  lead : Joint marks lead
  /-- Each text is read as its value. -/
  reads : ∀ portion ∈ portions, reads portion.text portion.value
  /-- A joint stands after each element. -/
  joints : ∀ portion ∈ portions, Joint portion.marks portion.after
  /-- Something stands between two elements. -/
  apart : portions.IsChain fun portion _ => portion.after ≠ []

/-- No list separator stands before the first element, and at most one after each. -/
def InOrder (marks : Nat) (portions : List (Portion α)) : Prop :=
  marks = 0 ∧ ∀ portion ∈ portions, portion.marks ≤ 1

end Layout

/-- A joint between two elements is not empty. -/
theorem touches_of_isChain {α : Type} {portion : Portion α} {portions : List (Portion α)}
    (apart : (portion :: portions).IsChain fun portion _ => portion.after ≠ [])
    (some : portions ≠ []) : portion.after ≠ [] := by
  obtain ⟨next, others, rfl⟩ := List.exists_cons_of_ne_nil some
  exact (List.isChain_cons_cons.1 apart).1

section Joints

variable {marks : Nat} {gap text : List Char}

/-- Nothing is skipped where an element begins. -/
theorem Solid.skip (solid : Solid text) : ThriftIdl.skip text = text := by
  obtain ⟨c, tail, rfl, closed, -⟩ := solid
  exact skip_cons_of_not_opensGap closed tail

/-- There is no gap where an element begins. -/
theorem Solid.hasGap (solid : Solid text) : ThriftIdl.hasGap text = false := by
  rw [ThriftIdl.hasGap, skip_eq_self_iff.1 solid.skip]
  rfl

/-- An element goes on with anything. -/
theorem Solid.append (solid : Solid text) (more : List Char) : Solid (text ++ more) := by
  obtain ⟨c, tail, rfl, closed, other⟩ := solid
  exact ⟨c, tail ++ more, rfl, closed, other⟩

/-- A list separator opens no gap. -/
theorem not_opensGap_of_separator {c : Char} (isSeparator : c = ',' ∨ c = ';') : ¬ opensGap c := by
  rcases isSeparator with rfl | rfl <;> decide

/-- Skipping stops at a list separator. -/
theorem skip_separator {c : Char} (isSeparator : c = ',' ∨ c = ';') (tail : List Char) :
    skip (c :: tail) = c :: tail :=
  skip_cons_of_not_opensGap (not_opensGap_of_separator isSeparator) tail

/-- What follows an element may follow it: a joint, and another element or the closing bracket. -/
theorem Joint.border (joint : Joint marks gap) (solid : Solid text)
    (touches : gap = [] → ∃ c rest, text = c :: rest ∧ c ∈ [']', '\x7d']) : Border (gap ++ text) := by
  constructor
  · intro c head
    cases joint with
    | filler filler =>
      cases gap with
      | nil =>
        obtain ⟨d, rest, rfl, closes⟩ := touches rfl
        obtain rfl : d = c := by simpa using head
        simp only [List.mem_cons, List.not_mem_nil, or_false] at closes
        rcases closes with rfl | rfl <;> exact .inr (by decide)
      | cons d gap => exact .inl (filler.fenced c head)
    | @separator marks gap others d filler isSeparator _ =>
      cases gap with
      | nil =>
        obtain rfl : d = c := by simpa using head
        rcases isSeparator with rfl | rfl <;> exact .inr (by decide)
      | cons e gap => exact .inl (filler.fenced c head)
  · cases joint with
    | filler filler =>
      obtain ⟨c, tail, rfl, closed, other⟩ := solid
      rw [filler.skip, skip_cons_of_not_opensGap closed]
      rintro same
      obtain rfl := Option.some.inj same
      exact other (by decide)
    | @separator marks gap others c filler isSeparator _ =>
      rw [List.append_assoc, filler.skip, List.cons_append, skip_separator isSeparator]
      rcases isSeparator with rfl | rfl <;> simp

end Joints

namespace Reader

open Readable

section Characters

variable {c : Char} {rest : List Char} {production : String}

/-- A list separator is read. -/
theorem gives_listSeparator_cons (isSeparator : c = ',' ∨ c = ';') :
    (listSeparator : Reader (List Char) Char).Gives (c :: rest) c rest := by
  refine ⟨none, ?_⟩
  change Lexical.listSeparator (c :: rest) = _
  rcases isSeparator with rfl | rfl <;> rfl

/-- Where an element begins, no list separator is read. -/
theorem refuses_listSeparator_of_solid {text : List Char} (solid : Solid text) :
    (listSeparator : Reader (List Char) Char).Refuses text := by
  obtain ⟨c, tail, rfl, -, other⟩ := solid
  simp only [List.mem_cons, not_or] at other
  change ∃ failure rest noted, Lexical.listSeparator (c :: tail) = .fail failure rest noted ∧ _
  simp only [Lexical.listSeparator, other.1, other.2.1, decide_false, Bool.or_self]
  exact refuses_fail (by decide)

/-- A character is read where it stands. -/
theorem gives_character_cons :
    (character c production : Reader (List Char) Unit).Gives (c :: rest) () rest := by
  refine ⟨none, ?_⟩
  change Lexical.character c production (c :: rest) = _
  simp [Lexical.character]

/-- A character is refused where another one stands. -/
theorem refuses_character_cons {wanted : Char} (other : c ≠ wanted) :
    (character wanted production : Reader (List Char) Unit).Refuses (c :: rest) := by
  change ∃ failure place noted, Lexical.character wanted production (c :: rest) =
    .fail failure place noted ∧ _
  simp only [Lexical.character, other, ↓reduceIte]
  exact refuses_fail (by simp [Reason.kind])

end Characters

/-- After a joint, reading is at the text that follows it, or at its second list separator. -/
def EndsAt (marks : Nat) (text left : List Char) : Prop :=
  marks ≤ 1 ∧ left = text ∨ 2 ≤ marks ∧ ∃ c tail, left = c :: tail ∧ (c = ',' ∨ c = ';')

/-- A list separator that may follow is tried after skipping, and reading is at a place after
skipping again. -/
def Trails (text left : List Char) : Prop :=
  ∃ found place, (optional (listSeparator : Reader (List Char) Char)).Gives (skip text) found place ∧
    skip place = left

section Joints

variable {marks : Nat} {gap text : List Char}

/-- Skipping a joint ends at the text that follows it, or at its first list separator. -/
theorem endsAt_skip (joint : Joint marks gap) (solid : Solid text) :
    EndsAt (marks + 1) text (skip (gap ++ text)) := by
  cases joint with
  | filler filler => exact .inl ⟨Nat.le_refl 1, by rw [filler.skip, solid.skip]⟩
  | @separator marks gap others c filler isSeparator _ =>
    refine .inr ⟨by omega, c, others ++ text, ?_, isSeparator⟩
    rw [List.append_assoc, filler.skip, List.cons_append, skip_separator isSeparator]

/-- A joint is read like what may trail the last element, and like what separates two elements if it
is not empty. -/
theorem exists_endsAt (joint : Joint marks gap) (solid : Solid text) :
    ∃ left, EndsAt marks text left ∧ Trails (gap ++ text) left ∧
      (gap ≠ [] → (elementSeparator : Reader (List Char) Unit).Gives (gap ++ text) () left) := by
  cases joint with
  | filler filler =>
    have skipped : skip (gap ++ text) = text := by rw [filler.skip, solid.skip]
    have absent := (refuses_listSeparator_of_solid solid).optional
    refine ⟨text, .inl ⟨Nat.zero_le 1, rfl⟩, ⟨none, text, ?_, solid.skip⟩, fun some => ?_⟩
    · rw [skipped]
      exact absent
    · refine gives_skipSeparator_bind.2 ?_
      rw [filler.hasGap some, skipped]
      exact absent.bind (gives_skipSeparator_bind.2 (gives_pure.2 ⟨rfl, solid.skip.symm⟩))
  | @separator marks gap others c filler isSeparator joint =>
    have skipped : skip (gap ++ c :: others ++ text) = c :: (others ++ text) := by
      rw [List.append_assoc, filler.skip, List.cons_append, skip_separator isSeparator]
    have present : (listSeparator : Reader (List Char) Char).Gives (c :: (others ++ text)) c
        (others ++ text) := gives_listSeparator_cons isSeparator
    refine ⟨skip (others ++ text), endsAt_skip joint solid, ⟨some c, others ++ text, ?_, rfl⟩,
      fun _ => gives_skipSeparator_bind.2 ?_⟩
    · rw [skipped]
      exact present.optional
    · rw [skipped]
      split
      · exact present.optional.bind (gives_skipSeparator_bind.2 (gives_pure.2 ⟨rfl, rfl⟩))
      · exact present.bind (gives_skipSeparator_bind.2 (gives_pure.2 ⟨rfl, rfl⟩))

end Joints

section Leading

variable {α β : Type}

/-- Reading gives or refuses what another reader gives or refuses further on. -/
structure Leads (reader : Reader (List Char) α) (text : List Char) (inner : Reader (List Char) α)
    (place : List Char) : Prop where
  /-- What is given further on is given. -/
  gives : ∀ ⦃value rest⦄, inner.Gives place value rest → reader.Gives text value rest
  /-- What is refused further on is refused. -/
  refuses : inner.Refuses place → reader.Refuses text

/-- After what a first reader gives, reading goes on where that ends. -/
theorem Gives.leads {first : Reader (List Char) α} {next : α → Reader (List Char) β}
    {text middle place : List Char} {value : α} {inner : Reader (List Char) β}
    (opening : first.Gives text value middle) (leads : Leads (next value) middle inner place) :
    Leads (first >>= next) text inner place :=
  ⟨fun _ _ given => opening.bind (leads.gives given), fun refused =>
    opening.bind_refuses (leads.refuses refused)⟩

/-- A reader leads to itself. -/
theorem leads_self (reader : Reader (List Char) α) (text : List Char) :
    Leads reader text reader text := ⟨fun _ _ given => given, fun refused => refused⟩

/-- A changed value is changed further on. -/
theorem Leads.map {reader inner : Reader (List Char) α} {text place : List Char} (change : α → β)
    (leads : Leads reader text inner place) :
    Leads (change <$> reader) text (change <$> inner) place := by
  refine ⟨fun value rest given => ?_, fun refused => ?_⟩
  · obtain ⟨_, further, rfl⟩ := gives_map.1 given
    exact (leads.gives further).map change
  · exact refuses_map.2 (leads.refuses (refuses_map.1 refused))

end Leading

section Bodies

variable {α β : Type}

/-- What makes a body of elements end at its closing bracket. -/
structure Delimited (rule : Reader (List Char) α) (closing : Char) : Prop where
  /-- No element begins with a list separator or with the closing bracket. -/
  refuses : ∀ c rest, c = ',' ∨ c = ';' ∨ c = closing → rule.Refuses (c :: rest)
  /-- An element never leaves more than it found. -/
  shrinks : Shrinks rule
  /-- The closing bracket is one. -/
  closes : closing ∈ [']', '\x7d']

/-- A text is read as a value wherever something may follow it that follows an element. What is read
is viewed without its place. -/
def ReadsAs (rule : Reader (List Char) α) (view : α → β) (text : List Char) (value : β) : Prop :=
  Solid text ∧ ∀ rest, Border rest → ∃ found, rule.Gives (text ++ rest) found rest ∧ view found = value

variable {rule : Reader (List Char) α} {view : α → β} {closing : Char} {portions : List (Portion β)}
  {rest : List Char} {marks : Nat}

/-- The closing bracket ends the last joint. -/
theorem Delimited.solid (delimited : Delimited rule closing) (rest : List Char) :
    Solid (closing :: rest) := by
  have closes := delimited.closes
  simp only [List.mem_cons, List.not_mem_nil, or_false] at closes
  rcases closes with rfl | rfl <;> exact ⟨_, _, rfl, by decide, by decide⟩

/-- The closing bracket is no list separator. -/
theorem Delimited.ne_of_separator (delimited : Delimited rule closing) {c : Char}
    (isSeparator : c = ',' ∨ c = ';') : c ≠ closing := by
  have closes := delimited.closes
  simp only [List.mem_cons, List.not_mem_nil, or_false] at closes
  rcases isSeparator with rfl | rfl <;> rcases closes with rfl | rfl <;> decide

/-- Elements and their closing bracket begin with an element or the bracket. -/
theorem Delimited.solid_laidOut (delimited : Delimited rule closing)
    (reads : ∀ portion ∈ portions, ReadsAs rule view portion.text portion.value) :
    Solid (laidOut portions (closing :: rest)) := by
  cases portions with
  | nil => exact delimited.solid rest
  | cons portion portions => exact (reads portion (by simp)).1.append _

/-- An element is refused at the closing bracket or a list separator after a joint. -/
theorem Delimited.refuses_endsAt (delimited : Delimited rule closing) {text left : List Char}
    (ends : EndsAt marks text left) (bracket : marks ≤ 1 → text = closing :: rest) :
    rule.Refuses left := by
  rcases ends with ⟨few, rfl⟩ | ⟨-, c, tail, rfl, isSeparator⟩
  · rw [bracket few]
    exact delimited.refuses _ _ (.inr (.inr rfl))
  · exact delimited.refuses _ _ (or_assoc.1 (.inl isSeparator))

/-- The first of some elements is read up to its joint. -/
theorem exists_gives_laidOut (delimited : Delimited rule closing) {portion : Portion β}
    (reads : ∀ other ∈ portion :: portions, ReadsAs rule view other.text other.value)
    (joint : Joint portion.marks portion.after) (touches : portions ≠ [] → portion.after ≠ [])
    (rest : List Char) :
    ∃ found, rule.Gives (laidOut (portion :: portions) (closing :: rest)) found
      (portion.after ++ laidOut portions (closing :: rest)) ∧ view found = portion.value := by
  rw [List.forall_mem_cons] at reads
  have border : Border (portion.after ++ laidOut portions (closing :: rest)) := by
    refine joint.border (delimited.solid_laidOut reads.2) fun none => ?_
    have last : portions = [] := by
      by_contra some
      exact touches some none
    rw [last]
    exact ⟨closing, rest, rfl, delimited.closes⟩
  exact reads.1.2 _ border

/-- After a joint, the elements are read in rounds up to the last, or up to a joint with more than one
list separator. -/
theorem rounds_of_laidOut (delimited : Delimited rule closing) {gap : List Char}
    (joint : Joint marks gap) (touches : portions ≠ [] → gap ≠ [])
    (reads : ∀ portion ∈ portions, ReadsAs rule view portion.text portion.value)
    (joints : ∀ portion ∈ portions, Joint portion.marks portion.after)
    (apart : portions.IsChain fun portion _ => portion.after ≠ []) (rest : List Char) :
    ∃ values place left,
      Rounds (optional (elementSeparator >>= fun _ => rule))
        (gap ++ laidOut portions (closing :: rest)) values place ∧ Trails place left ∧
      ((marks ≤ 1 ∧ ∀ portion ∈ portions, portion.marks ≤ 1) ∧
          values.map view = portions.map Portion.value ∧ left = closing :: rest ∨
        ¬ (marks ≤ 1 ∧ ∀ portion ∈ portions, portion.marks ≤ 1) ∧
          ∃ c tail, left = c :: tail ∧ (c = ',' ∨ c = ';')) := by
  -- Each round reads the joint in front of an element, so that the joint before is the first of the rest.
  induction portions generalizing gap marks with
  | nil =>
    obtain ⟨left, ends, trails, separated⟩ := exists_endsAt joint (delimited.solid rest)
    have nothing : (elementSeparator >>= fun _ => rule).Refuses (gap ++ closing :: rest) := by
      by_cases none : gap = []
      · subst none
        refine (refuses_skipSeparator_bind ?_ : Reader.Refuses elementSeparator _).bind
        rw [List.nil_append, (delimited.solid rest).hasGap, (delimited.solid rest).skip]
        exact (refuses_listSeparator_of_solid (delimited.solid rest)).bind
      · exact (separated none).bind_refuses (delimited.refuses_endsAt ends fun _ => rfl)
    refine ⟨[], _, left, .done nothing.optional, trails, ?_⟩
    rcases ends with ⟨few, rfl⟩ | ⟨many, c, tail, rfl, isSeparator⟩
    · exact .inl ⟨⟨few, by simp⟩, rfl, rfl⟩
    · exact .inr ⟨fun inOrder => by omega, c, tail, rfl, isSeparator⟩
  | cons portion portions ih =>
    obtain ⟨left, ends, trails, separated⟩ := exists_endsAt joint (delimited.solid_laidOut reads)
    have separated := separated (touches (by simp))
    rcases ends with ⟨few, rfl⟩ | ⟨many, c, tail, rfl, isSeparator⟩
    · have touches' := touches_of_isChain apart
      have first : Joint portion.marks portion.after := joints portion (by simp)
      obtain ⟨found, element, same⟩ := exists_gives_laidOut delimited reads first touches' rest
      rw [List.forall_mem_cons] at reads joints
      obtain ⟨values, place, left, rounds, trails, outcome⟩ :=
        ih first touches' reads.2 joints.2 apart.of_cons
      refine ⟨found :: values, place, left, .more (separated.bind element).optional rounds, trails, ?_⟩
      rw [List.forall_mem_cons]
      rcases outcome with ⟨inOrder, values, rfl⟩ | ⟨disorder, isSeparator⟩
      · exact .inl ⟨⟨few, inOrder⟩, by simp [same, values], rfl⟩
      · exact .inr ⟨fun inOrder => disorder inOrder.2, isSeparator⟩
    · have nothing : (elementSeparator >>= fun _ => rule).Refuses
          (gap ++ laidOut (portion :: portions) (closing :: rest)) :=
        separated.bind_refuses (delimited.refuses c tail (or_assoc.1 (.inl isSeparator)))
      exact ⟨[], _, c :: tail, .done nothing.optional, trails,
        .inr ⟨fun inOrder => by omega, c, tail, rfl, isSeparator⟩⟩

/-- The elements of a body are read up to its closing bracket, or up to a list separator that stands
where none may. -/
theorem separated_of_laidOut (delimited : Delimited rule closing) {lead : List Char}
    (laid : LaidOut (ReadsAs rule view) lead marks portions) (rest : List Char) :
    ∃ values left,
      (separated rule).Gives (skip (lead ++ laidOut portions (closing :: rest))) values left ∧
      (InOrder marks portions ∧ values.map view = portions.map Portion.value ∧
          left = closing :: rest ∨
        ¬ InOrder marks portions ∧ ∃ c tail, left = c :: tail ∧ (c = ',' ∨ c = ';')) := by
  obtain ⟨isLead, reads, joints, apart⟩ := laid
  have nothing : ∀ {input : List Char}, rule.Refuses input →
      (separated rule).Gives input [] input := fun refused =>
    refused.optional.bind (gives_pure.2 ⟨rfl, rfl⟩)
  cases isLead with
  | @separator marks gap others c filler isSeparator _ =>
    rw [List.append_assoc, filler.skip, List.cons_append, skip_separator isSeparator]
    refine ⟨[], _, nothing (delimited.refuses _ _ (or_assoc.1 (.inl isSeparator))),
      .inr ⟨?_, _, _, rfl, isSeparator⟩⟩
    rintro ⟨impossible, -⟩
    cases impossible
  | filler filler =>
    rw [filler.skip, (delimited.solid_laidOut reads).skip]
    cases portions with
    | nil =>
      exact ⟨[], _, nothing (delimited.refuses _ _ (.inr (.inr rfl))),
        .inl ⟨⟨rfl, by simp⟩, rfl, rfl⟩⟩
    | cons portion portions =>
      have touches := touches_of_isChain apart
      have first : Joint portion.marks portion.after := joints portion (by simp)
      obtain ⟨found, element, same⟩ := exists_gives_laidOut delimited reads first touches rest
      rw [List.forall_mem_cons] at reads joints
      obtain ⟨values, place, left, rounds, ⟨_, _, tried, ends⟩, outcome⟩ :=
        rounds_of_laidOut delimited first touches reads.2 joints.2 apart.of_cons rest
      have shrinks := fun {input value rest} given =>
        @length_lt_of_round input rest _ rule delimited.shrinks value given
      have elements : (separated rule).Gives (laidOut (portion :: portions) (closing :: rest))
          (found :: values) left := by
        refine element.optional.bind (((gives_many shrinks).2 rounds).bind ?_)
        refine gives_skipSeparator_bind.2 (tried.bind (gives_skipSeparator_bind.2 ?_))
        exact gives_pure.2 ⟨rfl, ends.symm⟩
      refine ⟨found :: values, left, elements, ?_⟩
      rw [InOrder, List.forall_mem_cons]
      rcases outcome with ⟨inOrder, values, rfl⟩ | ⟨disorder, isSeparator⟩
      · exact .inl ⟨⟨rfl, inOrder⟩, by simp [same, values], rfl⟩
      · exact .inr ⟨fun inOrder => disorder inOrder.2, isSeparator⟩

variable {lead : List Char} {γ : Type}

/-- The inside of a body with its closing bracket; its value is made of those of the elements. -/
def bodyOf (rule : Reader (List Char) α) (closing : Char) (production : String)
    (convert : List α → γ) : Reader (List Char) γ :=
  skipSeparator >>= fun _ => separated rule >>= fun values =>
    character closing production >>= fun _ => Reader.pure (convert values)

/-- A body with no list separator too many is read up to its closing bracket. -/
theorem gives_bodyOf (delimited : Delimited rule closing)
    (laid : LaidOut (ReadsAs rule view) lead marks portions) (inOrder : InOrder marks portions)
    (production : String) (convert : List α → γ) (rest : List Char) :
    ∃ values, values.map view = portions.map Portion.value ∧
      (bodyOf rule closing production convert).Gives (lead ++ laidOut portions (closing :: rest))
        (convert values) rest := by
  obtain ⟨values, left, elements, ⟨-, same, rfl⟩ | ⟨disorder, -⟩⟩ :=
    separated_of_laidOut delimited laid rest
  · refine ⟨values, same, gives_skipSeparator_bind.2 (elements.bind ?_)⟩
    exact gives_character_cons.bind (gives_pure.2 ⟨rfl, rfl⟩)
  · exact absurd inOrder disorder

/-- A body with a list separator too many is refused. -/
theorem refuses_bodyOf (delimited : Delimited rule closing)
    (laid : LaidOut (ReadsAs rule view) lead marks portions) (disorder : ¬ InOrder marks portions)
    (production : String) (convert : List α → γ) (rest : List Char) :
    (bodyOf rule closing production convert).Refuses
      (lead ++ laidOut portions (closing :: rest)) := by
  obtain ⟨values, left, elements, ⟨inOrder, -⟩ | ⟨-, c, tail, rfl, isSeparator⟩⟩ :=
    separated_of_laidOut delimited laid rest
  · exact absurd inOrder disorder
  · exact refuses_skipSeparator_bind (elements.bind_refuses
      (refuses_character_cons (delimited.ne_of_separator isSeparator)).bind)

end Bodies
end Reader
end ThriftIdl
