import ThriftIdl.Text.Scan

/-!
# Words of the interface language

The keywords, the scopes a namespace may have, and the shape of a name: a letter, after an
optional underscore, and then letters, digits, points and underscores. Main statement:
`scanName?_eq_some`, scanning a name takes a name off the text and stops where no name could go
on.
-/
namespace ThriftIdl

open Text

/-- The base types. -/
inductive BaseType where
  /-- Truth values. -/
  | bool
  /-- Bytes. -/
  | byte
  /-- Integers of 8 bits. -/
  | i8
  /-- Integers of 16 bits. -/
  | i16
  /-- Integers of 32 bits. -/
  | i32
  /-- Integers of 64 bits. -/
  | i64
  /-- Double precision numbers. -/
  | double
  /-- Texts. -/
  | string
  /-- Byte strings. -/
  | binary
deriving DecidableEq, Repr

/-- The base types in the order in which they are tried. -/
def BaseType.all : List BaseType := [.bool, .byte, .i8, .i16, .i32, .i64, .double, .string, .binary]

/-- Every base type is tried. -/
theorem BaseType.mem_all (type : BaseType) : type ∈ BaseType.all := by cases type <;> decide

/-- The keyword of a base type. -/
def BaseType.keyword : BaseType → String
  | .bool => "bool"
  | .byte => "byte"
  | .i8 => "i8"
  | .i16 => "i16"
  | .i32 => "i32"
  | .i64 => "i64"
  | .double => "double"
  | .string => "string"
  | .binary => "binary"

/-- The scopes of a namespace; the star stands for all languages. -/
def namespaceScopes : List String := [
  "*", "c_glib", "rust", "cpp", "delphi", "haxe", "go", "java", "js", "lua", "netstd", "perl",
  "php", "py", "py.twisted", "rb", "st", "xsd"]

/-- The longest run of characters that continue a name, and the text after it. -/
def scanNameTail (text : List Char) : List Char × List Char :=
  (text.takeWhile continuesName, text.dropWhile continuesName)

/-- The name at the start of a text, and the text after it. -/
def scanName? : List Char → Option (List Char × List Char)
  | [] => none
  | c :: text =>
    if isLetter c then
      let (tail, rest) := scanNameTail text
      some (c :: tail, rest)
    else if c = '_' then
      match text with
      | d :: text =>
        if isLetter d then
          let (tail, rest) := scanNameTail text
          some (c :: d :: tail, rest)
        else none
      | [] => none
    else none

/-- Whether a text is a name and nothing else. -/
def IsName (text : List Char) : Prop :=
  ∃ mark letter tail, text = mark ++ letter :: tail ∧ (mark = [] ∨ mark = ['_']) ∧
    isLetter letter ∧ ∀ c ∈ tail, continuesName c

/-- Nothing is lost between a run of name characters and the text after it. -/
theorem scanNameTail_append (text : List Char) :
    (scanNameTail text).1 ++ (scanNameTail text).2 = text :=
  List.takeWhile_append_dropWhile

/-- A run of name characters holds nothing else. -/
theorem continuesName_of_mem_scanNameTail {text : List Char} {c : Char}
    (mem : c ∈ (scanNameTail text).1) : continuesName c :=
  List.all_eq_true.1 List.all_takeWhile c mem

/-- The text after a run of name characters does not begin with one. -/
theorem not_continuesName_after_scanNameTail (text : List Char) :
    ∀ c ∈ (scanNameTail text).2.head?, ¬ continuesName c := by
  intro c head
  have stops := List.head?_dropWhile_not continuesName text
  rw [show (text.dropWhile continuesName).head? = some c from head] at stops
  simpa using stops

/-- Scanning a name takes a name off the text and stops where no name could go on. -/
theorem scanName?_eq_some {text name rest : List Char}
    (found : scanName? text = some (name, rest)) :
    text = name ++ rest ∧ IsName name ∧ ∀ c ∈ rest.head?, ¬ continuesName c := by
  match text with
  | [] => simp [scanName?] at found
  | c :: text =>
    simp only [scanName?] at found
    split at found
    next letter =>
      simp only [Option.some.injEq, Prod.mk.injEq] at found
      obtain ⟨rfl, rfl⟩ := found
      refine ⟨by simp [scanNameTail_append], ⟨[], c, _, rfl, .inl rfl, letter, ?_⟩,
        not_continuesName_after_scanNameTail text⟩
      exact fun _ mem => continuesName_of_mem_scanNameTail mem
    next =>
      split at found
      next mark =>
        match text with
        | [] => simp at found
        | d :: text =>
          simp only at found
          split at found
          next letter =>
            simp only [Option.some.injEq, Prod.mk.injEq] at found
            obtain ⟨rfl, rfl⟩ := found
            refine ⟨by simp [scanNameTail_append], ⟨[c], d, _, rfl, .inr (by rw [mark]),
              letter, ?_⟩, not_continuesName_after_scanNameTail text⟩
            exact fun _ mem => continuesName_of_mem_scanNameTail mem
          next => simp at found
      next => simp at found

/-- The text after a keyword, when the text begins with it and the keyword is not the beginning
of a longer name. -/
def afterKeyword? (word text : List Char) : Option (List Char) :=
  match after? word text with
  | none => none
  | some [] => some []
  | some (c :: rest) => if continuesName c then none else some (c :: rest)

end ThriftIdl
