import ThriftIdl.Text.Scan

/-!
# Blanks and comments

Between tokens stand blanks and comments: to the end of the line after `//` or `#`, or between
`/*` and the next `*/`. Main statement: `afterSeparator?_skip`, what is left after skipping them
begins with neither a blank nor a complete comment.
-/
namespace ThriftIdl

open Text

/-- What follows the mark of a comment to the end of the line. -/
def afterLineMark? (text : List Char) : Option (List Char) :=
  (after? ['/', '/'] text).or (after? ['#'] text)

/-- The text of a complete comment at the start of a text, and what follows it. A comment to the
end of a line does not include the line end. -/
def scanComment? (text : List Char) : Option (List Char × List Char) :=
  match afterLineMark? text with
  | some rest => some (rest.takeWhile (· ≠ '\n'), rest.dropWhile (· ≠ '\n'))
  | none => (after? ['/', '*'] text).bind (splitAt? ['*', '/'])

/-- Whether a text begins a block comment. -/
def opensBlock (text : List Char) : Bool := startsWith ['/', '*'] text

/-- What follows a blank or a complete comment at the start of a text. -/
def afterSeparator? : List Char → Option (List Char)
  | [] => none
  | c :: text => if isBlank c then some text else (scanComment? (c :: text)).map (·.2)

/-- What follows at most the given number of blanks and comments. -/
def skipWithin : Nat → List Char → List Char
  | 0, text => text
  | rounds + 1, text =>
    match afterSeparator? text with
    | some rest => skipWithin rounds rest
    | none => text

/-- What follows the blanks and comments at the start of a text. -/
def skip (text : List Char) : List Char := skipWithin text.length text

/-- A line mark is not empty. -/
theorem length_of_afterLineMark? {text rest : List Char}
    (found : afterLineMark? text = some rest) : rest.length < text.length := by
  simp only [afterLineMark?, Option.or_eq_some_iff] at found
  rcases found with slashes | ⟨_, hash⟩
  · rw [after?_eq_some_iff.1 slashes, List.length_append]
    exact Nat.lt_add_of_pos_left (by decide)
  · rw [after?_eq_some_iff.1 hash, List.length_append]
    exact Nat.lt_add_of_pos_left (by decide)

/-- A comment is not empty, so that the text after it is shorter. -/
theorem length_of_scanComment? {text comment rest : List Char}
    (found : scanComment? text = some (comment, rest)) : rest.length < text.length := by
  simp only [scanComment?] at found
  split at found
  next after starts =>
    simp only [Option.some.injEq, Prod.mk.injEq] at found
    obtain ⟨_, rfl⟩ := found
    have shorter := (List.dropWhile_suffix (l := after) (· ≠ '\n')).length_le
    have marked := length_of_afterLineMark? starts
    omega
  next =>
    obtain ⟨after, starts, ends⟩ := Option.bind_eq_some_iff.1 found
    rw [after?_eq_some_iff.1 starts, eq_of_splitAt? ends]
    simp only [List.length_append, List.length_cons]
    omega

/-- Skipping one blank or comment shortens the text. -/
theorem length_of_afterSeparator? {text rest : List Char}
    (found : afterSeparator? text = some rest) : rest.length < text.length := by
  cases text with
  | nil => simp [afterSeparator?] at found
  | cons c text =>
    simp only [afterSeparator?] at found
    split at found
    next => obtain rfl := Option.some.inj found; simp
    next =>
      simp only [Option.map_eq_some_iff] at found
      obtain ⟨⟨comment, _⟩, scanned, rfl⟩ := found
      exact length_of_scanComment? scanned

/-- Enough rounds leave neither a blank nor a complete comment at the start. -/
theorem afterSeparator?_skipWithin {rounds : Nat} {text : List Char}
    (enough : text.length ≤ rounds) : afterSeparator? (skipWithin rounds text) = none := by
  induction rounds generalizing text with
  | zero =>
    obtain rfl := List.eq_nil_of_length_eq_zero (Nat.le_zero.1 enough)
    rfl
  | succ rounds ih =>
    simp only [skipWithin]
    split
    next rest found =>
      have shorter := length_of_afterSeparator? found
      exact ih (by omega)
    next stop => exact stop

/-- What is left after skipping begins with neither a blank nor a complete comment. -/
theorem afterSeparator?_skip (text : List Char) : afterSeparator? (skip text) = none :=
  afterSeparator?_skipWithin (Nat.le_refl _)

end ThriftIdl
