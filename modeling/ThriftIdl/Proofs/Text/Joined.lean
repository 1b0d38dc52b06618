import ThriftIdl.Proofs.Text.Continued

/-!
# A text on the line after another

A line end belongs to no word and to no number, and it closes a comment to the end of a line. So if a
text is put on the line after another, the lexemes of the first stay what they are, with more left
after them (`Lexes.joined`), and skipping what is left of it goes on in the second
(`skip_joined_of_nil`): the lexemes of the whole are those of the one text and those of the other
(`Lexes.append_joined`).
-/
namespace ThriftIdl

open Text

variable (second : List Char)

/-- A line end belongs to no number. -/
theorem foreign_lineEnd : Foreign ('\n' :: second) := by
  intro c head
  obtain rfl : '\n' = c := by simpa using head
  decide

variable {second} {text rest : List Char}

/-- After a text with nothing left, skipping goes on in the text on the next line. -/
theorem skip_joined_of_nil (ends : skip text = []) : skip (text ++ '\n' :: second) = skip second := by
  rw [skip_append (.lineEnd _ second), ends]
  exact skip_of_some rfl

/-- Where something can be skipped, it can if more follows on the next line. -/
theorem hasGap_joined (gap : hasGap text) : hasGap (text ++ '\n' :: second) := by
  obtain ⟨rest, found⟩ := Option.isSome_iff_exists.1 gap
  rw [hasGap, afterSeparator?_append found (.lineEnd rest second)]
  rfl

/-- The line end can be skipped. -/
theorem hasGap_joined_of_nil (ends : skip text = []) : hasGap (text ++ '\n' :: second) := by
  cases found : afterSeparator? text with
  | none =>
    obtain rfl : text = [] := (skip_of_none found).symm.trans ends
    rfl
  | some rest => exact hasGap_joined (by rw [hasGap, found]; rfl)

/-- A lexeme moved by as many characters as a text on the next line and its line end have. -/
def Lexeme.moved (second : List Char) (lexeme : Lexeme) : Lexeme :=
  { lexeme with left := lexeme.left + (second.length + 1) }

/-- The length of a text with another on the next line. -/
theorem length_joined (text : List Char) :
    (text ++ '\n' :: second).length = text.length + (second.length + 1) := by
  simp

section Lexing

variable {admits : List Char → Bool} {found : List Char} {lexeme : Lexeme} {lexemes lexemes' : List Lexeme}

/-- Lexemes stand where they did if more follows on the next line. -/
theorem Lexes.joined (lexes : Lexes admits text lexemes rest) :
    Lexes admits (text ++ '\n' :: second) (lexemes.map (Lexeme.moved second))
      (rest ++ '\n' :: second) :=
  lexes.continued (closed_lineEnd second) (foreign_lineEnd second)

/-- Lexemes of which the first is apart from what stands before it. -/
def freed : List Lexeme → List Lexeme
  | [] => []
  | first :: others => { first with apart := true } :: others

/-- The lexemes of two texts, one on the line after the other, are those of the first and those of the
second. -/
theorem Lexes.append_joined {rest' : List Char} (lexes : Lexes admits text lexemes rest)
    (ends : skip rest = []) (lexes' : Lexes admits second lexemes' rest') (ends' : skip rest' = []) :
    ∃ left, Lexes admits (text ++ '\n' :: second) (lexemes.map (Lexeme.moved second) ++ freed lexemes')
      left ∧ skip left = [] := by
  cases lexemes' with
  | nil =>
    obtain rfl : rest' = second := lexes'
    refine ⟨rest ++ '\n' :: rest', ?_, (skip_joined_of_nil ends).trans ends'⟩
    have moved : Lexes admits (text ++ '\n' :: rest') (lexemes.map (Lexeme.moved rest'))
        (rest ++ '\n' :: rest') := lexes.joined
    simpa [freed] using moved
  | cons first others =>
    obtain ⟨after, here, lexes'⟩ := lexes'
    have continued : Lexeme.At admits (rest ++ '\n' :: second) { first with apart := true } after := by
      refine ⟨?_, here.before, ?_, (hasGap_joined_of_nil ends).symm⟩
      · rw [skip_joined_of_nil ends, here.spelled]
      · rw [skip_joined_of_nil ends, ← here.left]
    exact ⟨rest', lexes_append.2 ⟨_, lexes.joined, after, continued, lexes'⟩, ends'⟩

end Lexing

end ThriftIdl
