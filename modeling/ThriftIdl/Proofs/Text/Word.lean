import ThriftIdl.Token.Basic

/-!
# Keywords as names

Every keyword is a name, so that looking for a keyword and scanning a name are the same test: a
keyword stands at the start of a text exactly where the name scanned there is that keyword
(`afterKeyword?_eq_some_iff_scanName?`). No keyword is the beginning of another one.
-/
namespace ThriftIdl

open Text

/-- No name goes on at the start of a text. -/
def Closed (text : List Char) : Prop := ∀ c ∈ text.head?, ¬ continuesName c

/-- The empty text is closed. -/
@[simp] theorem closed_nil : Closed [] := by simp [Closed]

/-- A text is closed if its first character continues no name. -/
@[simp] theorem closed_cons {c : Char} {text : List Char} :
    Closed (c :: text) ↔ ¬ continuesName c := by
  simp [Closed]

/-- A line end closes a word. -/
theorem closed_lineEnd (rest : List Char) : Closed ('\n' :: rest) := by
  simp only [closed_cons]
  decide

/-- What a run of name characters before a closed text is. -/
theorem scanNameTail_append_of_closed {tail rest : List Char} (continued : ∀ c ∈ tail, continuesName c)
    (closed : Closed rest) : scanNameTail (tail ++ rest) = (tail, rest) := by
  have stops : rest.takeWhile continuesName = [] ∧ rest.dropWhile continuesName = rest := by
    cases rest with
    | nil => simp
    | cons c rest =>
      have stop : continuesName c = false := by simpa using closed
      simp [stop]
  simp [scanNameTail, List.takeWhile_append_of_pos continued, List.dropWhile_append_of_pos continued,
    stops]

/-- Letters continue names. -/
theorem continuesName_of_isLetter {c : Char} (letter : isLetter c) : continuesName c := by
  simp [continuesName, letter]

/-- The underscore is no letter. -/
theorem not_isLetter_underscore : ¬ isLetter '_' := by decide

/-- Scanning takes exactly the names that are followed by a closed text. -/
theorem scanName?_eq_some_iff {text name rest : List Char} :
    scanName? text = some (name, rest) ↔ text = name ++ rest ∧ IsName name ∧ Closed rest := by
  constructor
  · exact scanName?_eq_some
  · rintro ⟨rfl, ⟨mark, letter, tail, rfl, rfl | rfl, first, continued⟩, closed⟩
    · simp [scanName?, first, scanNameTail_append_of_closed continued closed]
    · simp [scanName?, not_isLetter_underscore, first,
        scanNameTail_append_of_closed continued closed]

/-- A name is not empty, and begins with a letter or an underscore. -/
theorem IsName.exists_cons {name : List Char} (isName : IsName name) :
    ∃ c tail, name = c :: tail ∧ (isLetter c ∨ c = '_') := by
  obtain ⟨mark, letter, tail, rfl, rfl | rfl, first, _⟩ := isName
  · exact ⟨letter, tail, rfl, .inl first⟩
  · exact ⟨'_', letter :: tail, rfl, .inr rfl⟩

/-- A name holds only characters that continue names. -/
theorem IsName.continued {name : List Char} (isName : IsName name) :
    ∀ c ∈ name, continuesName c := by
  obtain ⟨mark, letter, tail, rfl, rfl | rfl, first, continued⟩ := isName
  · simpa [continuesName_of_isLetter first] using continued
  · simp only [List.cons_append, List.nil_append, List.mem_cons]
    rintro c (rfl | rfl | mem)
    · decide
    · exact continuesName_of_isLetter first
    · exact continued c mem

/-- A text that begins with neither a letter nor an underscore begins with no name. -/
theorem scanName?_cons_eq_none {c : Char} {text : List Char} (letter : ¬ isLetter c)
    (mark : c ≠ '_') : scanName? (c :: text) = none := by
  simp [scanName?, letter, mark]

/-- A keyword is followed by a closed text. -/
theorem afterKeyword?_eq_some_iff {word text rest : List Char} :
    afterKeyword? word text = some rest ↔ text = word ++ rest ∧ Closed rest := by
  simp only [afterKeyword?]
  cases begun : after? word text with
  | none =>
    simp only [reduceCtorEq, false_iff, not_and]
    intro same
    rw [after?_eq_some_iff.2 same] at begun
    cases begun
  | some left =>
    obtain rfl := after?_eq_some_iff.1 begun
    cases left with
    | nil =>
      simp only [Option.some.injEq, List.append_nil, List.self_eq_append_right]
      exact ⟨fun same => by simp [← same], fun same => same.1.symm⟩
    | cons c left =>
      simp only [Option.ite_none_left_eq_some, Option.some.injEq, List.append_cancel_left_eq]
      constructor
      · rintro ⟨stop, rfl⟩
        exact ⟨rfl, closed_cons.2 stop⟩
      · rintro ⟨rfl, closed⟩
        exact ⟨closed_cons.1 closed, rfl⟩

/-- A keyword that is a name stands exactly where scanning a name gives that keyword. -/
theorem afterKeyword?_eq_some_iff_scanName? {word text rest : List Char} (isName : IsName word) :
    afterKeyword? word text = some rest ↔ scanName? text = some (word, rest) := by
  simp [afterKeyword?_eq_some_iff, scanName?_eq_some_iff, isName]

/-- Where no name stands, no keyword does. -/
theorem afterKeyword?_eq_none {word text : List Char} (isName : IsName word)
    (nothing : scanName? text = none) : afterKeyword? word text = none := by
  rw [Option.eq_none_iff_forall_not_mem]
  intro left found
  rw [Option.mem_def, afterKeyword?_eq_some_iff_scanName? isName, nothing] at found
  cases found

/-- Whether a text is a name and nothing else, as a test. -/
def isNameText (text : List Char) : Bool :=
  match scanName? text with
  | some (_, []) => true
  | _ => false

/-- The test for names tells names. -/
theorem isNameText_iff {text : List Char} : isNameText text ↔ IsName text := by
  simp only [isNameText]
  constructor
  · intro holds
    split at holds
    next name scanned =>
      have parts := scanName?_eq_some_iff.1 scanned
      rw [List.append_nil] at parts
      rw [parts.1]
      exact parts.2.1
    next => cases holds
  · intro isName
    rw [scanName?_eq_some_iff.2 ⟨(List.append_nil text).symm, isName, closed_nil⟩]

/-- Names can be told. -/
instance (text : List Char) : Decidable (IsName text) := decidable_of_iff _ isNameText_iff

/-- Every keyword is among all keywords. -/
theorem Keyword.mem_all (word : Keyword) : word ∈ Keyword.all := by
  cases word with
  | base type => cases type <;> decide
  | _ => decide

/-- Every keyword is a name. -/
theorem Keyword.isName (word : Keyword) : IsName word.text.toList := by
  have all : ∀ word ∈ Keyword.all, IsName word.text.toList := by decide
  exact all word word.mem_all

/-- No keyword is the beginning of another one. -/
theorem Keyword.eq_of_isPrefix {word other : Keyword}
    (begins : word.text.toList <+: other.text.toList) : word = other := by
  have all : ∀ word ∈ Keyword.all, ∀ other ∈ Keyword.all,
      word.text.toList <+: other.text.toList → word = other := by decide
  exact all word word.mem_all other other.mem_all begins

/-- Different keywords have different texts. -/
theorem Keyword.text_inj {word other : Keyword} :
    word.text.toList = other.text.toList ↔ word = other :=
  ⟨fun same => Keyword.eq_of_isPrefix (same ▸ List.prefix_rfl), fun same => same ▸ rfl⟩

end ThriftIdl
