import ThriftIdl.Data.Json
import ThriftIdl.Proofs.Json.Grammar

/-!
# Parts on lines of their own

A block of parts between brackets is a list or a record in JSON, whatever the parts are: if each part
is written as an item, the block is written as the items between the brackets (`sequence_jsonBlock`),
and if each part determines its item, the block determines the items (`determines_jsonBlock`).
-/
namespace ThriftIdl.Json

open Text

variable {α : Type} {part : List Char → α → Prop} {write : α → List Char} {sound : α → Prop}
  {items : List α} {level : Nat} {opening closing : Char}

/-- The start of a line consists of blanks. -/
theorem blank_newLine (level : Nat) : Blank (newLine level) := by
  intro c mem
  rcases List.mem_cons.1 mem with rfl | mem
  · rfl
  · rw [List.eq_of_mem_replicate mem]
    rfl

/-- What is written after the first part of a block. -/
def furtherLines (level : Nat) (closing : Char) (parts : List (List Char)) : List Char :=
  parts.flatMap (fun part => ',' :: newLine (level + 1) ++ part) ++ newLine level ++ [closing]

/-- Parts with something between them are the first one and the others with that before each. -/
theorem intercalate_cons (separator part : List Char) (parts : List (List Char)) :
    separator.intercalate (part :: parts) = part ++ parts.flatMap (separator ++ ·) := by
  induction parts generalizing part with
  | nil => simp [List.intercalate]
  | cons next parts ih =>
    have row : separator.intercalate (part :: next :: parts) =
        part ++ (separator ++ separator.intercalate (next :: parts)) := by
      simp [List.intercalate]
    simp [row, ih]

/-- A block with a first part. -/
theorem jsonBlock_cons (part : List Char) (parts : List (List Char)) :
    jsonBlock level opening closing (part :: parts) =
      opening :: newLine (level + 1) ++ part ++ furtherLines level closing parts := by
  simp [jsonBlock, intercalate_cons, furtherLines]

/-- Further parts of a block are further items. -/
theorem further_furtherLines (each : ∀ item ∈ items, part (write item) item) :
    Further closing part (furtherLines level closing (items.map write)) items := by
  induction items with
  | nil => exact .none (blank_newLine level)
  | cons item items ih =>
    have first := each item (by simp)
    have others := ih fun item mem => each item (by simp [mem])
    have lines : furtherLines level closing ((item :: items).map write) =
        [] ++ ',' :: newLine (level + 1) ++ write item ++
          furtherLines level closing (items.map write) := by
      simp [furtherLines]
    rw [lines]
    exact .some blank_nil (blank_newLine _) first others

/-- Parts between brackets are items between brackets. -/
theorem sequence_jsonBlock (each : ∀ item ∈ items, part (write item) item) :
    Sequence opening closing part (jsonBlock level opening closing (items.map write)) items := by
  cases items with
  | nil => exact @Sequence.none _ opening closing part [] blank_nil
  | cons item items =>
    rw [List.map_cons, jsonBlock_cons]
    exact .some (blank_newLine _) (each item (by simp))
      (further_furtherLines fun item mem => each item (by simp [mem]))

/-- A part of a text that begins with something that is written is a given item, if it is a part at
all, and ends with what is written. What is written is sound then. -/
def Determines (part : List Char → α → Prop) (written : List Char) (item : α) (sound : Prop) : Prop :=
  ∀ ⦃text : List Char⦄ ⦃item' : α⦄ ⦃rest rest' : List Char⦄, part text item' →
    text ++ rest = written ++ rest' → NumberStop rest → NumberStop rest' →
      item' = item ∧ sound ∧ rest = rest'

/-- No number goes on with a blank, a comma or a closing bracket. -/
theorem numberStop_cons {c : Char} (other : isBlank c = true ∨ c ∈ [',', ']', '\x7d'])
    (tail : List Char) : NumberStop (c :: tail) := by
  simp only [isBlank, Bool.or_eq_true, decide_eq_true_eq, List.mem_cons, List.not_mem_nil,
    or_false] at other
  obtain (((rfl | rfl) | rfl) | rfl) | rfl | rfl | rfl := other <;> simp [NumberStop, isDigit]

/-- No number goes on with blanks in front of something that no number goes on with. -/
theorem Blank.numberStop {before rest : List Char} (blank : Blank before) (stop : NumberStop rest) :
    NumberStop (before ++ rest) := by
  cases before with
  | nil => exact stop
  | cons c before => exact numberStop_cons (.inl (blank c (by simp))) _

section Brackets

variable (bracket : closing = ']' ∨ closing = '\x7d')
include bracket

/-- A closing bracket is neither a blank nor a comma, and no number goes on with it. -/
theorem firm_closing (rest : List Char) :
    Firm (closing :: rest) ∧ ',' ≠ closing ∧ NumberStop (closing :: rest) := by
  rcases bracket with rfl | rfl
  · exact ⟨⟨_, _, rfl, rfl⟩, by decide, numberStop_cons (.inr (by simp)) _⟩
  · exact ⟨⟨_, _, rfl, rfl⟩, by decide, numberStop_cons (.inr (by simp)) _⟩

/-- An item does not begin with the closing bracket. -/
theorem Starts.ne_closing {text : List Char} (starts : Starts text) (more rest : List Char) :
    text ++ more ≠ closing :: rest := by
  obtain ⟨c, tail, rfl, -, other⟩ := starts
  rintro ⟨⟩
  rcases bracket with rfl | rfl <;> simp at other

/-- No number goes on with further items. -/
theorem Further.numberStop {after : List Char} (further : Further closing part after items)
    (rest : List Char) : NumberStop (after ++ rest) := by
  cases further with
  | none blank =>
    rw [List.append_assoc]
    exact blank.numberStop (firm_closing bracket rest).2.2
  | some blank =>
    simp only [List.append_assoc]
    exact blank.numberStop (numberStop_cons (.inr (by simp)) _)

/-- No number goes on with further parts of a block. -/
theorem numberStop_furtherLines (parts : List (List Char)) (rest : List Char) :
    NumberStop (furtherLines level closing parts ++ rest) := by
  cases parts with
  | nil =>
    simp only [furtherLines, List.flatMap_nil, List.nil_append, List.append_assoc]
    exact (blank_newLine level).numberStop (firm_closing bracket rest).2.2
  | cons part parts => exact numberStop_cons (.inr (by simp)) _

variable (starts : ∀ {text : List Char} {item : α}, part text item → Starts text)
include starts

/-- An item after blanks is determined by what is written for it at the start of a line. -/
theorem Determines.line {item item' : α} {sound : Prop}
    {between written text after rest rest' : List Char} {others : List α} {parts : List (List Char)}
    (determines : Determines part written item sound) (starts' : Starts written)
    (blank : Blank between) (first : part text item') (further : Further closing part after others)
    (same : between ++ (text ++ (after ++ rest)) =
      newLine (level + 1) ++ (written ++ (furtherLines level closing parts ++ rest'))) :
    item' = item ∧ sound ∧ after ++ rest = furtherLines level closing parts ++ rest' := by
  obtain ⟨-, ends⟩ := blank.unique (blank_newLine _) ((starts first).firm _) (starts'.firm _) same
  exact determines first ends (further.numberStop bracket rest)
    (numberStop_furtherLines bracket parts rest')

variable (each : ∀ item ∈ items, Starts (write item) ∧ Determines part (write item) item (sound item))
include each

/-- Further parts of a block determine the items. -/
theorem determines_furtherLines : Determines (Further closing part)
    (furtherLines level closing (items.map write)) items (∀ item ∈ items, sound item) := by
  have comma : ∀ tail, Firm (',' :: tail) := fun tail => ⟨_, _, rfl, rfl⟩
  induction items with
  | nil =>
    intro text items' rest rest' further same _ _
    simp only [furtherLines, List.map_nil, List.flatMap_nil, List.nil_append, List.append_assoc]
      at same
    obtain ⟨close', other, -⟩ := firm_closing bracket rest'
    cases further with
    | none blank =>
      rw [List.append_assoc] at same
      obtain ⟨-, ends⟩ :=
        blank.unique (blank_newLine level) (firm_closing bracket rest).1 close' same
      exact ⟨rfl, by simp, (List.cons.inj ends).2⟩
    | some blank =>
      -- A further item begins with a comma, where the closing bracket is written.
      simp only [List.append_assoc] at same
      obtain ⟨-, ends⟩ := blank.unique (blank_newLine level) (comma _) close' same
      exact absurd (List.cons.inj ends).1 other
  | cons item items ih =>
    intro text items' rest rest' further same stop stop'
    have lines : furtherLines level closing ((item :: items).map write) ++ rest' =
        [] ++ ',' :: (newLine (level + 1) ++ (write item ++
          (furtherLines level closing (items.map write) ++ rest'))) := by
      simp [furtherLines]
    rw [lines] at same
    cases further with
    | none blank =>
      rw [List.append_assoc] at same
      obtain ⟨close, other, -⟩ := firm_closing bracket rest
      obtain ⟨-, ends⟩ := blank.unique blank_nil close (comma _) same
      exact absurd (List.cons.inj ends).1.symm other
    | some blank blank' first others =>
      simp only [List.append_assoc] at same
      obtain ⟨-, ends⟩ := blank.unique blank_nil (comma _) (comma _) same
      obtain ⟨starts', determines⟩ := each item (by simp)
      simp only [List.cons.injEq, true_and] at ends
      obtain ⟨rfl, sound, ends⟩ := determines.line bracket starts starts' blank' first others ends
      obtain ⟨rfl, all, ends⟩ := ih (fun item mem => each item (by simp [mem])) others ends stop stop'
      exact ⟨rfl, by simpa using ⟨sound, all⟩, ends⟩

/-- Parts between brackets determine the items. -/
theorem determines_jsonBlock : Determines (Sequence opening closing part)
    (jsonBlock level opening closing (items.map write)) items (∀ item ∈ items, sound item) := by
  intro text items' rest rest' sequence same stop stop'
  obtain ⟨close, -⟩ := firm_closing bracket rest
  obtain ⟨close', -⟩ := firm_closing bracket rest'
  cases items with
  | nil =>
    simp only [jsonBlock, List.map_nil, List.isEmpty_nil, ↓reduceIte] at same
    cases sequence with
    | none blank =>
      simp only [List.cons_append, List.append_assoc, List.nil_append, List.cons.injEq, true_and]
        at same
      obtain ⟨-, ends⟩ := blank.unique blank_nil close close' same
      exact ⟨rfl, by simp, (List.cons.inj ends).2⟩
    | some blank first others =>
      -- The item begins with the closing bracket, which no item does.
      simp only [List.cons_append, List.append_assoc, List.nil_append, List.cons.injEq, true_and]
        at same
      obtain ⟨-, ends⟩ := blank.unique blank_nil ((starts first).firm _) close' same
      exact absurd ends ((starts first).ne_closing bracket _ _)
  | cons item items =>
    obtain ⟨starts', determines⟩ := each item (by simp)
    rw [List.map_cons, jsonBlock_cons] at same
    simp only [List.cons_append, List.append_assoc] at same
    cases sequence with
    | none blank =>
      simp only [List.cons_append, List.append_assoc, List.cons.injEq, true_and] at same
      obtain ⟨-, ends⟩ := blank.unique (blank_newLine _) close (starts'.firm _) same
      exact absurd ends.symm (starts'.ne_closing bracket _ _)
    | some blank first others =>
      simp only [List.cons_append, List.append_assoc, List.cons.injEq, true_and] at same
      obtain ⟨rfl, sound, ends⟩ := determines.line bracket starts starts' blank first others same
      obtain ⟨rfl, all, ends⟩ := determines_furtherLines bracket starts
        (fun item mem => each item (by simp [mem])) others ends stop stop'
      exact ⟨rfl, by simpa using ⟨sound, all⟩, ends⟩

end Brackets

end ThriftIdl.Json
