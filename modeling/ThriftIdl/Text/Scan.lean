/-!
# Beginnings of a text

A text is a list of characters. The character classes of the interface language are ASCII
classes, and the two operations here cut a beginning off a text: a given word (`after?`), or
the first line of a bounded excerpt (`excerpt`). Main statement: `after?_eq_some_iff`, a word is
cut off exactly where the text begins with it, and what is left is the rest.
-/
namespace ThriftIdl.Text

/-- The letters a name may hold: the ASCII letters. -/
def isLetter (c : Char) : Bool :=
  (65 ≤ c.toNat && c.toNat ≤ 90) || (97 ≤ c.toNat && c.toNat ≤ 122)

/-- The digits of names and numbers: the ASCII digits. -/
def isDigit (c : Char) : Bool := 48 ≤ c.toNat && c.toNat ≤ 57

/-- The characters that may continue a name, so that no keyword ends before one of them. -/
def continuesName (c : Char) : Bool := isLetter c || isDigit c || c = '.' || c = '_'

/-- The blanks between tokens: space, tabulator, carriage return and line feed. -/
def isBlank (c : Char) : Bool := c = ' ' || c = '\t' || c = '\r' || c = '\n'

/-- What is left of a text after a given word, when the text begins with it. -/
def after? : List Char → List Char → Option (List Char)
  | [], text => some text
  | _ :: _, [] => none
  | c :: word, d :: text => if c = d then after? word text else none

/-- A word is cut off exactly where the text begins with it. -/
theorem after?_eq_some_iff {word text rest : List Char} :
    after? word text = some rest ↔ text = word ++ rest := by
  induction word generalizing text with
  | nil => simp [after?, eq_comm]
  | cons c word ih =>
    cases text with
    | nil => simp [after?]
    | cons d text =>
      by_cases same : c = d
      · simp [after?, same, ih]
      · simp [after?, same, Ne.symm same]

/-- Whether a text begins with a given word. -/
def startsWith (word text : List Char) : Bool := (after? word text).isSome

/-- A text up to its first line end. -/
def firstLine (text : List Char) : List Char := text.takeWhile (· ≠ '\n')

/-- The greatest length of an excerpt. -/
def excerptLength : Nat := 20

/-- At most twenty characters from the start of a text, cut at its first line end. -/
def excerpt (text : List Char) : List Char := firstLine (text.take excerptLength)

/-- The text up to the first occurrence of a word, with what follows that occurrence. -/
def splitAt? (word : List Char) : List Char → Option (List Char × List Char)
  | [] => (after? word []).map fun rest => ([], rest)
  | c :: text =>
    match after? word (c :: text) with
    | some rest => some ([], rest)
    | none => (splitAt? word text).map fun (before, rest) => (c :: before, rest)

/-- A split puts the word back between its two parts. -/
theorem eq_of_splitAt? {word text before rest : List Char}
    (found : splitAt? word text = some (before, rest)) : text = before ++ word ++ rest := by
  induction text generalizing before with
  | nil =>
    simp only [splitAt?, Option.map_eq_some_iff, Prod.mk.injEq] at found
    obtain ⟨_, here, rfl, rfl⟩ := found
    simpa using after?_eq_some_iff.1 here
  | cons c text ih =>
    simp only [splitAt?] at found
    split at found
    next left here =>
      simp only [Option.some.injEq, Prod.mk.injEq] at found
      obtain ⟨rfl, rfl⟩ := found
      simpa using after?_eq_some_iff.1 here
    next =>
      simp only [Option.map_eq_some_iff, Prod.mk.injEq] at found
      obtain ⟨⟨first, last⟩, later, rfl, rfl⟩ := found
      simp [ih later]

end ThriftIdl.Text
