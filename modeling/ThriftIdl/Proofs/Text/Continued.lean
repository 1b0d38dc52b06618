import ThriftIdl.Proofs.Text.Lexeme

/-!
# A text that goes on

What is cut off a text is cut off it if the text goes on, as long as something is left after it in
the text itself or the text goes on with a line end (`Seam`, `afterSeparator?_append`,
`skip_append`). So the lexemes of a text are lexemes of each text that begins with it and goes on with
nothing that belongs to a word or a number (`Lexes.continued`).
-/
namespace ThriftIdl

open Text

variable {text rest : List Char}

/-- A word that begins a text begins it if the text goes on. -/
theorem after?_append {word : List Char} (found : after? word text = some rest)
    (more : List Char) : after? word (text ++ more) = some (rest ++ more) := by
  rw [after?_eq_some_iff] at found ⊢
  rw [found, List.append_assoc]

/-- A word that does not begin a text, which is long enough for it, does not if the text goes on. -/
theorem after?_append_eq_none {word : List Char} (nothing : after? word text = none)
    (long : word.length ≤ text.length) (more : List Char) : after? word (text ++ more) = none := by
  rw [Option.eq_none_iff_forall_ne_some]
  intro left found
  obtain ⟨rest, rfl⟩ : word <+: text :=
    List.prefix_of_prefix_length_le ⟨left, (after?_eq_some_iff.1 found).symm⟩
      (List.prefix_append text more) long
  rw [after?_eq_some_iff.2 rfl] at nothing
  cases nothing

/-- The first occurrence of a word stays the first if the text goes on. -/
theorem splitAt?_append {word before : List Char} (found : splitAt? word text = some (before, rest))
    (more : List Char) : splitAt? word (text ++ more) = some (before, rest ++ more) := by
  induction text generalizing before with
  | nil =>
    simp only [splitAt?, Option.map_eq_some_iff, Prod.mk.injEq] at found
    obtain ⟨left, here, rfl, rfl⟩ := found
    have := after?_append here more
    cases more with
    | nil => simp [splitAt?, here]
    | cons c more =>
      simp only [List.nil_append] at this
      simp [splitAt?, this]
  | cons c text ih =>
    have long : word.length ≤ (c :: text).length := by
      rw [eq_of_splitAt? found]
      simp only [List.length_append]
      omega
    simp only [splitAt?] at found
    simp only [List.cons_append, splitAt?]
    split at found
    next left here =>
      simp only [Option.some.injEq, Prod.mk.injEq] at found
      obtain ⟨rfl, rfl⟩ := found
      rw [← List.cons_append, after?_append here]
    next nothing =>
      simp only [Option.map_eq_some_iff, Prod.mk.injEq] at found
      obtain ⟨⟨first, last⟩, later, rfl, rfl⟩ := found
      rw [← List.cons_append, after?_append_eq_none nothing long, ih later]
      rfl

/-- The mark of a comment to the end of a line stays one if the text goes on. -/
theorem afterLineMark?_append (found : afterLineMark? text = some rest) (more : List Char) :
    afterLineMark? (text ++ more) = some (rest ++ more) := by
  simp only [afterLineMark?, Option.or_eq_some_iff] at found ⊢
  rcases found with slashes | ⟨none, hash⟩
  · exact .inl (after?_append slashes more)
  · have begins := after?_append hash more
    rw [after?_eq_some_iff.1 begins]
    simp [after?]

/-- The mark of a block comment is no mark of a comment to the end of a line. -/
theorem afterLineMark?_of_block (found : after? ['/', '*'] text = some rest) :
    afterLineMark? text = none := by
  rw [after?_eq_some_iff.1 found]
  simp [afterLineMark?, after?]

/-- The seam between a text and what it goes on with keeps the lines of the text apart from the rest:
something is left before the seam, or a line end stands right after it. -/
def Seam (rest more : List Char) : Prop := rest = [] → more.head? = some '\n'

/-- Where something is left, the seam lies behind it. -/
theorem Seam.of_ne_nil (some : rest ≠ []) (more : List Char) : Seam rest more :=
  fun empty => absurd empty some

/-- A line end right after the seam ends a line that nothing is left of. -/
theorem Seam.lineEnd (rest second : List Char) : Seam rest ('\n' :: second) := fun _ => rfl

variable {more : List Char}

/-- A line ends where it did if the text goes on. -/
theorem line_append (seam : Seam (text.dropWhile (· ≠ '\n')) more) :
    (text ++ more).takeWhile (· ≠ '\n') = text.takeWhile (· ≠ '\n') ∧
      (text ++ more).dropWhile (· ≠ '\n') = text.dropWhile (· ≠ '\n') ++ more := by
  induction text with
  | nil =>
    cases more with
    | nil => exact ⟨rfl, rfl⟩
    | cons c more =>
      obtain rfl : c = '\n' := by simpa using seam rfl
      exact ⟨rfl, rfl⟩
  | cons c text ih =>
    by_cases lineEnd : c = '\n'
    · simp [lineEnd]
    · simpa [lineEnd] using ih (by simpa [lineEnd] using seam)

/-- A complete comment stays one if the text goes on after a seam. -/
theorem scanComment?_append {comment : List Char} (found : scanComment? text = some (comment, rest))
    (seam : Seam rest more) : scanComment? (text ++ more) = some (comment, rest ++ more) := by
  simp only [scanComment?] at found
  split at found
  next after starts =>
    simp only [Option.some.injEq, Prod.mk.injEq] at found
    obtain ⟨rfl, rfl⟩ := found
    simp only [scanComment?, afterLineMark?_append starts, line_append seam]
  next other =>
    obtain ⟨after, starts, ends⟩ := Option.bind_eq_some_iff.1 found
    have begins := after?_append starts more
    simp only [scanComment?, afterLineMark?_of_block begins, begins, Option.bind_some,
      splitAt?_append ends]

/-- A blank or a complete comment stays one if the text goes on after a seam. -/
theorem afterSeparator?_append (found : afterSeparator? text = some rest) (seam : Seam rest more) :
    afterSeparator? (text ++ more) = some (rest ++ more) := by
  cases text with
  | nil => cases found
  | cons c text =>
    simp only [afterSeparator?] at found
    simp only [List.cons_append, afterSeparator?]
    split at found
    next blank => rw [if_pos blank, Option.some.inj found]
    next blank =>
      obtain ⟨⟨comment, _⟩, scanned, rfl⟩ := Option.map_eq_some_iff.1 found
      rw [if_neg blank, ← List.cons_append, scanComment?_append scanned seam]
      rfl

/-- Skipping goes on where skipping the text itself stops, if the text goes on after a seam. -/
theorem skip_append (seam : Seam (skip text) more) : skip (text ++ more) = skip (skip text ++ more) := by
  induction size : text.length using Nat.strong_induction_on generalizing text with
  | _ size ih =>
    cases found : afterSeparator? text with
    | none => rw [skip_of_none found]
    | some rest =>
      have shorter := length_of_afterSeparator? found
      rw [skip_of_some found] at seam ⊢
      have here : Seam rest more := by
        rintro rfl
        exact seam rfl
      rw [skip_of_some (afterSeparator?_append found here)]
      exact ih rest.length (size ▸ shorter) seam rfl

/-- A word that ends before a text ends before it if the text goes on with none of its characters. -/
theorem Closed.append (stop : Closed rest) (closed : Closed more) : Closed (rest ++ more) := by
  cases rest with
  | nil => exact closed
  | cons c rest => exact stop

/-- Digits that end before a text end before it if the text goes on with nothing that belongs to a
number. -/
theorem NoDigit.append (stop : NoDigit rest) (foreign : Foreign more) : NoDigit (rest ++ more) := by
  cases rest with
  | nil => exact fun c head => (foreign c head).1
  | cons c rest => exact stop

section Lexing

variable {admits : List Char → Bool} {found : List Char} {lexeme : Lexeme} {lexemes : List Lexeme}

/-- Characters keep their shape if the text goes on with nothing that belongs to a word or a
number. -/
theorem Shape.Before.continued {shape : Shape} (before : shape.Before admits found rest)
    (closed : Closed more) (foreign : Foreign more) : shape.Before admits found (rest ++ more) := by
  have numbers := scanNumber_append_foreign foreign (found ++ rest) admits
  rw [List.append_assoc] at numbers
  cases shape with
  | word => exact ⟨before.1, before.2.append closed⟩
  | mark symbol => exact before
  | literal => exact before
  | double =>
    obtain ⟨number, scanned, digits, whole⟩ := before
    exact ⟨number, by rw [numbers, scanned], digits, whole⟩
  | integer =>
    obtain ⟨isInteger, stop, whole⟩ := before
    exact ⟨isInteger, stop.append foreign, by rw [numbers]; exact whole⟩

/-- A lexeme with more characters left after it. -/
def Lexeme.ahead (count : Nat) (lexeme : Lexeme) : Lexeme :=
  { lexeme with left := lexeme.left + count }

/-- A lexeme stands where it did if the text goes on with nothing that belongs to a word or a
number. -/
theorem Lexeme.At.continued (here : lexeme.At admits text rest) (closed : Closed more)
    (foreign : Foreign more) :
    (lexeme.ahead more.length).At admits (text ++ more) (rest ++ more) := by
  have stands : lexeme.shape.Before admits lexeme.text (rest ++ more) :=
    here.before.continued closed foreign
  have some : skip text ≠ [] := by
    rw [here.spelled]
    simp [here.before.ne_nil]
  have spelled : skip (text ++ more) = lexeme.text ++ (rest ++ more) := by
    rw [skip_append (.of_ne_nil some more), here.spelled, List.append_assoc, stands.skip]
  refine ⟨spelled, stands, ?_, ?_⟩
  · have left := here.left
    rw [here.spelled] at left
    simp only [Lexeme.ahead, spelled, left, List.length_append]
    omega
  · cases gap : afterSeparator? text with
    | some after =>
      have left : after ≠ [] := by
        rintro rfl
        exact some (skip_of_some gap)
      rw [hasGap, afterSeparator?_append gap (.of_ne_nil left more)]
      exact here.apart.trans (by rw [hasGap, gap]; rfl)
    | none =>
      have same : text = lexeme.text ++ rest := (skip_of_none gap).symm.trans here.spelled
      have none : afterSeparator? (text ++ more) = none := by
        rw [← skip_eq_self_iff, spelled, same, List.append_assoc]
      rw [hasGap, none]
      exact here.apart.trans (by rw [hasGap, gap])

/-- Lexemes stand where they did if the text goes on with nothing that belongs to a word or a
number. -/
theorem Lexes.continued (lexes : Lexes admits text lexemes rest) (closed : Closed more)
    (foreign : Foreign more) :
    Lexes admits (text ++ more) (lexemes.map (Lexeme.ahead more.length)) (rest ++ more) := by
  induction lexemes generalizing text with
  | nil =>
    obtain rfl : rest = text := lexes
    rfl
  | cons lexeme lexemes ih =>
    obtain ⟨after, here, lexes⟩ := lexes
    exact ⟨_, here.continued closed foreign, ih lexes⟩

end Lexing

end ThriftIdl
