import ThriftIdl.Proofs.Json.Blocks

/-!
# Data as JSON

What is written for data is a JSON value, and it stands for the data, if all doubles in the data are
finite (`value_json`). It stands for nothing else, and if one of the doubles is not finite it is no
JSON value at all (`determines_json`). Both are shown for all parts of the data at once
(`Data.induction`).
-/
namespace ThriftIdl

open Text

section Data

/-- What holds of data if it holds of its items or of the values of its entries holds of all data. -/
theorem Data.induction {motive : Data → Prop} (null : motive .null)
    (flag : ∀ value, motive (.flag value)) (int : ∀ value, motive (.int value))
    (double : ∀ value, motive (.double value)) (text : ∀ content, motive (.text content))
    (list : ∀ items, (∀ item ∈ items, motive item) → motive (.list items))
    (record : ∀ entries, (∀ entry ∈ entries, motive entry.2) → motive (.record entries)) :
    ∀ data, motive data
  | .null => null
  | .flag value => flag value
  | .int value => int value
  | .double value => double value
  | .text content => text content
  | .list items => list items fun item _ =>
    Data.induction null flag int double text list record item
  | .record entries => record entries fun entry mem =>
    have : sizeOf entry.2 < sizeOf entries := by
      have smaller := List.sizeOf_lt_of_mem mem
      obtain ⟨name, value⟩ := entry
      simp only [Prod.mk.sizeOf_spec] at smaller ⊢
      omega
    Data.induction null flag int double text list record entry.2

mutual
/-- The doubles of data. -/
def Data.doubles : Data → List Double
  | .double value => [value]
  | .list items => doublesOfItems items
  | .record entries => doublesOfRecord entries
  | .null | .flag _ | .int _ | .text _ => []

/-- The doubles of items. -/
def doublesOfItems : List Data → List Double
  | [] => []
  | item :: items => item.doubles ++ doublesOfItems items

/-- The doubles of the values of entries. -/
def doublesOfRecord : List (String × Data) → List Double
  | [] => []
  | (_, value) :: entries => value.doubles ++ doublesOfRecord entries
end

/-- Items have the doubles of each of them. -/
theorem doublesOfItems_eq (items : List Data) : doublesOfItems items = items.flatMap Data.doubles := by
  induction items with
  | nil => rfl
  | cons item items ih => rw [doublesOfItems, ih, List.flatMap_cons]

/-- Entries have the doubles of each value. -/
theorem doublesOfRecord_eq (entries : List (String × Data)) :
    doublesOfRecord entries = entries.flatMap fun entry => entry.2.doubles := by
  induction entries with
  | nil => rfl
  | cons entry entries ih => rw [doublesOfRecord, ih, List.flatMap_cons]

/-- Items are written one by one. -/
theorem jsonItems_eq (level : Nat) (items : List Data) :
    jsonItems level items = items.map (Data.json level) := by
  induction items with
  | nil => rfl
  | cons item items ih => rw [jsonItems, ih, List.map_cons]

/-- An entry is written as its name and its value after a colon. -/
def jsonEntry (level : Nat) (entry : String × Data) : List Char :=
  jsonText entry.1 ++ ':' :: ' ' :: entry.2.json level

/-- Entries are written one by one. -/
theorem jsonEntries_eq (level : Nat) (entries : List (String × Data)) :
    jsonEntries level entries = entries.map (jsonEntry level) := by
  induction entries with
  | nil => rfl
  | cons entry entries ih =>
    rw [jsonEntries, ih, List.map_cons]
    rfl

end Data

namespace Json

section Strings

/-- The value of the hexadecimal digits of a number. -/
theorem hexValue?_hexDigits (width n : Nat) :
    hexValue? (hexDigits width n) = some (n % 16 ^ width) := by
  induction width generalizing n with
  | zero => simp [hexDigits, hexValue?, Nat.mod_one]
  | succ width ih =>
    have digit : ∀ digit < 16, hexDigit? (Nat.digitChar digit) = some digit := by decide
    have last := digit (n % 16) (Nat.mod_lt _ (by decide))
    have parts : 16 * (n / 16 % 16 ^ width) + n % 16 = n % 16 ^ (width + 1) := by
      rw [Nat.pow_succ', Nat.mod_mul, Nat.add_comm]
    unfold hexValue? at ih
    simp only [hexDigits, hexValue?, List.foldlM_append, ih, Option.bind_eq_bind, Option.bind_some,
      List.foldlM_cons, List.foldlM_nil, last, Option.map_some, parts]
    rfl

/-- A code unit is written as one. -/
theorem codeUnit_unitEscape {unit : Nat} (few : unit < 0x10000) : CodeUnit (unitEscape unit) unit := by
  refine .digits rfl ?_
  rw [hexValue?_hexDigits]
  exact congrArg some (Nat.mod_eq_of_lt few)

/-- A character inside a text is written as one. -/
theorem character_jsonEscaped (c : Char) : Character (jsonEscaped c) c := by
  have valid := toNat_lt_or_of_char c
  unfold jsonEscaped
  split
  next special =>
    simp only [Bool.or_eq_true, decide_eq_true_eq] at special
    rcases special with rfl | rfl <;> exact .letter rfl
  next ordinary =>
    simp only [Bool.or_eq_true, decide_eq_true_eq, not_or] at ordinary
    split
    next feed => exact feed ▸ .letter rfl
    split
    next return' => exact return' ▸ .letter rfl
    split
    next tabulator => exact tabulator ▸ .letter rfl
    split
    next page => exact page ▸ .letter rfl
    split
    next back => exact back ▸ .letter rfl
    split
    next graphic =>
      simp only [Bool.and_eq_true, decide_eq_true_eq] at graphic
      exact .plain graphic.1 ordinary.1 ordinary.2
    split
    next few => exact .unit (codeUnit_unitEscape few)
    next beyond =>
      exact .pair (by omega) (codeUnit_unitEscape (by omega)) (codeUnit_unitEscape (by omega))

/-- The characters of a text are written as such. -/
theorem characters_flatMap (cs : List Char) : Characters (cs.flatMap jsonEscaped) cs := by
  induction cs with
  | nil => exact .nil
  | cons c cs ih => exact .cons (character_jsonEscaped c) ih

/-- A text is written as a string. -/
theorem quoted_jsonText (content : String) : Quoted (jsonText content) content :=
  .characters (characters_flatMap content.toList)

end Strings

section Numbers

/-- An integer is written as a number. -/
theorem exists_number_integer (n : Int) :
    ∃ number : Number, number.text = integer n ∧ number.Terse ∧ number.isIntegral = true := by
  have all : ∀ c ∈ digits n.natAbs, isDigit c := fun c mem => isDigit_of_mem_digits mem
  unfold integer
  split
  · exact ⟨⟨['-'], digits n.natAbs, none, none⟩, by simp [Number.text],
      ⟨⟨.inr (.inr rfl), all, by simp, by simp⟩, .inr rfl, unpadded_digits _⟩, rfl⟩
  · exact ⟨⟨[], digits n.natAbs, none, none⟩, by simp [Number.text],
      ⟨⟨.inl rfl, all, by simp, by simp⟩, .inl rfl, unpadded_digits _⟩, rfl⟩

end Numbers

section Values

/-- An entry begins as an item between brackets does. -/
theorem starts_jsonEntry (level : Nat) (entry : String × Data) : Starts (jsonEntry level entry) :=
  ⟨_, _, rfl, rfl, by simp⟩

/-- A name with a value begins as an item between brackets does. -/
theorem Member.starts {value : List Char → Data → Prop} {text : List Char} {entry : String × Data}
    (member : Member value text entry) : Starts text := by
  obtain ⟨⟨_⟩, _, _, _⟩ := member
  exact ⟨_, _, rfl, rfl, by simp⟩

/-- One space is blank. -/
theorem blank_space : Blank [' '] := by simp [Blank, isBlank]

/-- An entry is written as a name and a value after a colon. -/
theorem member_jsonEntry {level : Nat} {entry : String × Data}
    (given : Value (entry.2.json level) entry.2) : Member Value (jsonEntry level entry) entry := by
  have row : jsonEntry level entry = jsonText entry.1 ++ [] ++ ':' :: [' '] ++ entry.2.json level := by
    simp [jsonEntry]
  rw [row]
  exact .entry (quoted_jsonText entry.1) blank_nil blank_space given

/-- A finite double is written as its text. -/
theorem jsonDouble_of_isFinite {double : Double} (finite : double.isFinite) :
    jsonDouble double = double.text := by
  cases double with
  | nan => cases finite
  | number negative magnitude => exact if_pos finite

/-- What is written for data whose doubles are finite is a value that stands for the data. -/
theorem value_json (data : Data) (finite : ∀ double ∈ data.doubles, double.isFinite) (level : Nat) :
    Value (data.json level) data := by
  induction data using Data.induction generalizing level with
  | null => exact .null
  | flag value => exact .flag value
  | int value =>
    obtain ⟨number, text, terse, integral⟩ := exists_number_integer value
    have written := Value.int terse integral
    rwa [text, signedValue_integer] at written
  | double value =>
    have finite' : value.isFinite := finite value (by simp [Data.doubles])
    obtain ⟨number, text, terse, fractional, -, reads⟩ := Double.exists_number_of_isFinite finite'
    have written := Value.double terse fractional
    rwa [text, reads, ← jsonDouble_of_isFinite finite'] at written
  | text content => exact .text (quoted_jsonText content)
  | list items ih =>
    rw [Data.doubles, doublesOfItems_eq, List.forall_mem_flatMap] at finite
    rw [Data.json, jsonItems_eq]
    exact .list (sequence_jsonBlock fun item mem => ih item mem (finite item mem) _)
  | record entries ih =>
    rw [Data.doubles, doublesOfRecord_eq, List.forall_mem_flatMap] at finite
    rw [Data.json, jsonEntries_eq]
    exact .record
      (sequence_jsonBlock fun entry mem => member_jsonEntry (ih entry mem (finite entry mem) _))

/-- A block begins with its opening bracket. -/
theorem head_jsonBlock (level : Nat) (opening closing : Char) (parts : List (List Char)) :
    ∃ tail, jsonBlock level opening closing parts = opening :: tail := by
  unfold jsonBlock
  split <;> exact ⟨_, rfl⟩

/-- A double that is not finite is written in words. -/
theorem exists_jsonDouble {double : Double} (infinite : double.isFinite = false) :
    ∃ tail, jsonDouble double = 'I' :: tail ∨ jsonDouble double = '-' :: 'I' :: tail ∨
      jsonDouble double = 'N' :: tail := by
  cases double with
  | nan => exact ⟨"aN".toList, .inr (.inr rfl)⟩
  | number negative magnitude =>
    have infinite' : magnitude.isFinite = false := infinite
    refine ⟨"nfinity".toList, ?_⟩
    rw [jsonDouble, infinite']
    cases negative with
    | false => exact .inl rfl
    | true => exact .inr (.inl rfl)

/-- What is written for data begins as an item between brackets does. -/
theorem starts_json (level : Nat) (data : Data) : Starts (data.json level) := by
  cases data with
  | double value =>
    cases finite : value.isFinite with
    | true => exact (value_json (.double value) (by simp [Data.doubles, finite]) level).starts
    | false =>
      rw [Data.json]
      obtain ⟨tail, word | word | word⟩ := exists_jsonDouble finite <;>
        exact ⟨_, _, word, rfl, by simp⟩
  | null | flag | int | text => exact (value_json _ (by simp [Data.doubles]) level).starts
  | list items =>
    obtain ⟨tail, block⟩ := head_jsonBlock level '[' ']' (jsonItems (level + 1) items)
    exact ⟨_, tail, by rw [Data.json, block], rfl, by simp⟩
  | record entries =>
    obtain ⟨tail, block⟩ := head_jsonBlock level '\x7b' '\x7d' (jsonEntries (level + 1) entries)
    exact ⟨_, tail, by rw [Data.json, block], rfl, by simp⟩

variable {text rest rest' : List Char} {data : Data}

/-- A number determines its data. -/
theorem determines_number {number : Number} (terse : number.Terse) :
    Determines Value number.text (numberData number) True := by
  intro text data rest rest' value same stop stop'
  have kinds : some Kind.number = some (kind data) := by
    obtain ⟨c, tail, digit, signed | unsigned⟩ := terse.exists_text
    · exact value.kindOf?_eq (signed ▸ same)
    · have begins : kindOf? c = some .number := by simp [kindOf?, digit]
      exact begins ▸ value.kindOf?_eq (unsigned ▸ same)
  obtain ⟨number', terse', rfl, rfl⟩ := value.exists_number (Option.some.inj kinds).symm
  obtain ⟨rfl, rests⟩ := terse'.unique terse stop stop' same
  exact ⟨rfl, trivial, rests⟩

/-- An integer is determined by its text. -/
theorem determines_integer (n : Int) : Determines Value (integer n) (.int n) True := by
  obtain ⟨number, text, terse, integral⟩ := exists_number_integer n
  have determines := determines_number terse
  rwa [numberData, if_pos integral, text, signedValue_integer] at determines

/-- A string is determined by what is written for it. -/
theorem determines_jsonText (content : String) :
    Determines Value (jsonText content) (.text content) True := by
  intro text data rest rest' value same _ _
  have kinds : some Kind.text = some (kind data) := value.kindOf?_eq same
  cases value with
  | text quoted =>
    obtain ⟨rfl, rests⟩ := quoted.unique (quoted_jsonText content) same
    exact ⟨rfl, trivial, rests⟩
  | _ => cases kinds

/-- No value begins what is written for a double that is not finite. -/
theorem Value.ne_jsonDouble {double : Double} (value : Value text data)
    (infinite : double.isFinite = false) : text ++ rest ≠ jsonDouble double ++ rest' := by
  intro same
  obtain ⟨tail, word | word | word⟩ := exists_jsonDouble infinite
  · cases value.kindOf?_eq (word ▸ same)
  · rw [word] at same
    have kinds : some Kind.number = some (kind data) := value.kindOf?_eq same
    obtain ⟨number, terse, rfl, -⟩ := value.exists_number (Option.some.inj kinds).symm
    obtain ⟨c, tail, digit, signed | unsigned⟩ := terse.exists_text
    · rw [signed] at same
      obtain rfl : c = 'I' := (List.cons.inj (List.cons.inj same).2).1
      cases digit
    · rw [unsigned] at same
      obtain rfl : c = '-' := (List.cons.inj same).1
      cases digit
  · cases value.kindOf?_eq (word ▸ same)

/-- A double is determined by what is written for it, and if that begins with a value it is finite. -/
theorem determines_jsonDouble (double : Double) :
    Determines Value (jsonDouble double) (.double double) (double.isFinite = true) := by
  cases finite : double.isFinite with
  | false =>
    intro text data rest rest' value same _ _
    exact absurd same (value.ne_jsonDouble finite)
  | true =>
    obtain ⟨number, text, terse, fractional, -, reads⟩ := Double.exists_number_of_isFinite finite
    have determines := determines_number terse
    rw [numberData, fractional, text, reads, ← jsonDouble_of_isFinite finite] at determines
    simpa using determines

/-- An entry is determined by what is written for it, if its value is. -/
theorem determines_jsonEntry {level : Nat} {entry : String × Data} {sound : Prop}
    (determines : Determines Value (entry.2.json level) entry.2 sound) :
    Determines (Member Value) (jsonEntry level entry) entry sound := by
  intro text entry' rest rest' member same stop stop'
  have colon : ∀ tail, Firm (':' :: tail) := fun tail => ⟨_, _, rfl, rfl⟩
  have row : jsonEntry level entry ++ rest' =
      jsonText entry.1 ++ ([] ++ ':' :: ([' '] ++ (entry.2.json level ++ rest'))) := by
    simp [jsonEntry]
  rw [row] at same
  obtain ⟨quoted, blank, blank', given⟩ := member
  simp only [List.append_assoc] at same
  obtain ⟨rfl, same⟩ := quoted.unique (quoted_jsonText entry.1) same
  obtain ⟨-, same⟩ := blank.unique blank_nil (colon _) (colon _) same
  simp only [List.cons.injEq, true_and] at same
  obtain ⟨-, same⟩ := blank'.unique blank_space (given.starts.firm _) ((starts_json _ _).firm _) same
  obtain ⟨rfl, sound, rests⟩ := determines given same stop stop'
  exact ⟨rfl, sound, rests⟩

/-- The opening bracket of a block that begins with a value tells the kind of the value. -/
theorem Value.kindOf?_jsonBlock {level : Nat} {opening closing : Char} {parts : List (List Char)}
    (value : Value text data)
    (same : text ++ rest = jsonBlock level opening closing parts ++ rest') :
    kindOf? opening = some (kind data) := by
  obtain ⟨tail, block⟩ := head_jsonBlock level opening closing parts
  exact value.kindOf?_eq (block ▸ same)

/-- Data is determined by what is written for it, and if that begins with a value its doubles are
finite. -/
theorem determines_json (data : Data) (level : Nat) : Determines Value (data.json level) data
    (∀ double ∈ data.doubles, double.isFinite) := by
  -- The first character tells the kind of a value, so that both values are of one kind.
  induction data using Data.induction generalizing level with
  | null =>
    intro text data rest rest' value same _ _
    have kinds : some Kind.null = some (kind data) := value.kindOf?_eq same
    cases value with
    | null => exact ⟨rfl, by simp [Data.doubles], List.append_cancel_left same⟩
    | _ => cases kinds
  | flag flag =>
    intro text data rest rest' value same _ _
    have kinds : some (Kind.flag flag) = some (kind data) := by
      cases flag <;> exact value.kindOf?_eq same
    cases value with
    | flag =>
      cases kinds
      exact ⟨rfl, by simp [Data.doubles], List.append_cancel_left same⟩
    | _ => cases kinds
  | int n => simpa [Data.json, Data.doubles] using determines_integer n
  | double double => simpa [Data.json, Data.doubles] using determines_jsonDouble double
  | text content => simpa [Data.json, Data.doubles] using determines_jsonText content
  | list items ih =>
    intro text data rest rest' value same stop stop'
    rw [Data.json, jsonItems_eq] at same
    have kinds : some Kind.list = some (kind data) := value.kindOf?_jsonBlock same
    cases value with
    | list each =>
      obtain ⟨rfl, finite, rests⟩ := determines_jsonBlock (.inl rfl) Value.starts
        (fun item mem => ⟨starts_json _ item, ih item mem _⟩) each same stop stop'
      refine ⟨rfl, ?_, rests⟩
      rw [Data.doubles, doublesOfItems_eq, List.forall_mem_flatMap]
      exact finite
    | _ => cases kinds
  | record entries ih =>
    intro text data rest rest' value same stop stop'
    rw [Data.json, jsonEntries_eq] at same
    have kinds : some Kind.record = some (kind data) := value.kindOf?_jsonBlock same
    cases value with
    | record each =>
      obtain ⟨rfl, finite, rests⟩ := determines_jsonBlock (.inr rfl) Member.starts
        (fun entry mem => ⟨starts_jsonEntry _ entry, determines_jsonEntry (ih entry mem _)⟩)
        each same stop stop'
      refine ⟨rfl, ?_, rests⟩
      rw [Data.doubles, doublesOfRecord_eq, List.forall_mem_flatMap]
      exact finite
    | _ => cases kinds

/-- What is written for data, with blanks after it, is a text that stands for the data and nothing
else if all doubles are finite, and no text otherwise. -/
theorem isText_json_iff {after : List Char} (blank : Blank after) {data data' : Data} :
    IsText (data.json 0 ++ after) data' ↔
      data' = data ∧ ∀ double ∈ data.doubles, double.isFinite := by
  constructor
  · intro written
    generalize same : data.json 0 ++ after = text at written
    cases written with
    | value blank' value blank'' =>
      have stop : ∀ {after : List Char}, Blank after → NumberStop after := by
        intro after blank
        simpa using blank.numberStop numberStop_nil
      rw [List.append_assoc] at same
      obtain ⟨-, same⟩ :=
        blank_nil.unique blank' ((starts_json 0 data).firm _) (value.starts.firm _) same
      obtain ⟨rfl, finite, -⟩ := determines_json data 0 value same.symm (stop blank'') (stop blank)
      exact ⟨rfl, finite⟩
  · rintro ⟨rfl, finite⟩
    exact @IsText.value [] _ _ _ blank_nil (value_json data' finite 0) blank

end Values
end Json
end ThriftIdl
