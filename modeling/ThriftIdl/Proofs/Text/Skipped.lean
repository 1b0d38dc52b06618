import ThriftIdl.Proofs.Text.Joined
import ThriftIdl.Proofs.Text.Separated

/-!
# What is skipped

A blank or a complete comment is told apart from what follows it by its own characters, but for the
end of a comment to the end of a line (`Separator`). So texts that are skipped as a whole can be told
without skipping (`skippable_iff`), and what is skipped in front of a text is the same if that text is
taken away (`skip_of_append`).
-/
namespace ThriftIdl

open Text

/-- A blank or a complete comment in front of what follows it. -/
inductive Separator : List Char → List Char → Prop where
  /-- A blank. -/
  | blank {c : Char} {rest : List Char} : isBlank c → Separator [c] rest
  /-- A comment to the end of the line, or of the text. -/
  | line {mark comment rest : List Char} : mark = ['/', '/'] ∨ mark = ['#'] → '\n' ∉ comment →
      (∀ c ∈ rest.head?, c = '\n') → Separator (mark ++ comment) rest
  /-- A comment between its marks. -/
  | block {comment rest : List Char} : ¬ ['*', '/'] <:+: comment →
      Separator ('/' :: '*' :: (comment ++ ['*', '/'])) rest

section Comments

variable {text rest comment : List Char}

/-- A text in which a word stands is split somewhere. -/
theorem exists_splitAt? (before word rest : List Char) :
    ∃ parts, splitAt? word (before ++ (word ++ rest)) = some parts := by
  have begins : after? word (word ++ rest) = some rest := after?_eq_some_iff.2 rfl
  induction before with
  | nil =>
    rw [List.nil_append]
    cases same : word ++ rest with
    | nil =>
      rw [same] at begins
      exact ⟨([], rest), by rw [splitAt?, begins]; rfl⟩
    | cons c text =>
      rw [same] at begins
      exact ⟨([], rest), by rw [splitAt?, begins]⟩
  | cons c before ih =>
    obtain ⟨⟨first, last⟩, split⟩ := ih
    rw [List.cons_append, splitAt?]
    split
    next left _ => exact ⟨([], left), rfl⟩
    next => exact ⟨(c :: first, last), by rw [split]; rfl⟩

/-- A text is split at the first place where the word stands. -/
theorem not_isInfix_of_splitAt? {word before : List Char} (some : word ≠ [])
    (split : splitAt? word text = .some (before, rest)) : ¬ word <:+: before := by
  rintro ⟨first, last, rfl⟩
  obtain ⟨⟨shorter, left⟩, earlier⟩ := exists_splitAt? first word last
  have parts := eq_of_splitAt? earlier
  have same := eq_of_splitAt? split
  have again := splitAt?_append earlier (word ++ rest)
  rw [← List.append_assoc, ← List.append_assoc, ← same, split] at again
  simp only [Option.some.injEq, Prod.mk.injEq] at again
  have lengths := congrArg List.length parts
  rw [← List.append_assoc, again.1] at lengths
  have positive := List.length_pos_iff.2 some
  simp only [List.length_append] at lengths
  omega

/-- What stands up to the end of a line holds no line end. -/
theorem dropWhile_line (clear : '\n' ∉ comment) (ends : ∀ c ∈ rest.head?, c = '\n') :
    (comment ++ rest).dropWhile (· ≠ '\n') = rest := by
  rw [List.dropWhile_append_of_pos]
  · cases rest with
    | nil => rfl
    | cons c rest =>
      obtain rfl := ends c rfl
      simp
  · intro c mem
    simpa using ne_of_mem_of_not_mem mem clear

/-- The first line of a text holds no line end, and what follows it begins with one. -/
theorem line_parts (text : List Char) :
    '\n' ∉ text.takeWhile (· ≠ '\n') ∧ ∀ c ∈ (text.dropWhile (· ≠ '\n')).head?, c = '\n' := by
  constructor
  · intro mem
    have other := List.all_eq_true.1 (List.all_takeWhile (p := (· ≠ '\n')) (l := text)) _ mem
    simp at other
  · intro c mem
    have stops := List.head?_dropWhile_not (· ≠ '\n') text
    rw [Option.mem_def.1 mem] at stops
    simpa using stops

end Comments

section Separators

variable {piece text rest after : List Char}

/-- A blank or a comment is not empty. -/
theorem Separator.ne_nil (separator : Separator piece rest) : piece ≠ [] := by
  cases separator with
  | blank => simp
  | line mark => rcases mark with rfl | rfl <;> simp
  | block => simp

/-- What can be skipped is exactly a blank or a complete comment. -/
theorem afterSeparator?_eq_some_iff :
    afterSeparator? text = some rest ↔ ∃ piece, text = piece ++ rest ∧ Separator piece rest := by
  constructor
  · intro found
    cases text with
    | nil => cases found
    | cons c tail =>
      simp only [afterSeparator?] at found
      split at found
      next blank => exact ⟨[c], by rw [Option.some.inj found]; rfl, .blank blank⟩
      next =>
        obtain ⟨⟨comment, _⟩, scanned, rfl⟩ := Option.map_eq_some_iff.1 found
        simp only [scanComment?] at scanned
        split at scanned
        next after starts =>
          obtain ⟨rfl, rfl⟩ : after.takeWhile (· ≠ '\n') = comment ∧ after.dropWhile (· ≠ '\n') = _ := by
            simpa using scanned
          obtain ⟨clear, ends⟩ := line_parts after
          have parts : after.takeWhile (· ≠ '\n') ++ after.dropWhile (· ≠ '\n') = after :=
            List.takeWhile_append_dropWhile
          simp only [afterLineMark?, Option.or_eq_some_iff, after?_eq_some_iff] at starts
          rcases starts with same | ⟨-, same⟩
          · exact ⟨_, by rw [same, List.append_assoc, parts], .line (.inl rfl) clear ends⟩
          · exact ⟨_, by rw [same, List.append_assoc, parts], .line (.inr rfl) clear ends⟩
        next =>
          obtain ⟨after, starts, split⟩ := Option.bind_eq_some_iff.1 scanned
          have clear := not_isInfix_of_splitAt? (by simp) split
          refine ⟨_, ?_, .block clear⟩
          rw [after?_eq_some_iff.1 starts, eq_of_splitAt? split]
          simp
  · rintro ⟨piece, rfl, separator⟩
    cases separator with
    | blank blank => simp [afterSeparator?, blank]
    | @line mark comment rest mark clear ends =>
      have dropped := dropWhile_line clear ends
      rcases mark with rfl | rfl <;> exact congrArg some dropped
    | block clear =>
      have split := splitAt?_commentEnd clear rest
      simp [afterSeparator?, isBlank, scanComment?, afterLineMark?, after?, split]

/-- A blank or a comment is one whatever is taken away from what follows. -/
theorem Separator.truncate (separator : Separator piece (text ++ rest)) : Separator piece text := by
  cases separator with
  | blank blank => exact .blank blank
  | line mark clear ends =>
    refine .line mark clear fun c mem => ends c ?_
    rw [List.head?_append, Option.mem_def.1 mem, Option.some_or, Option.mem_def]
  | block clear => exact .block clear

/-- What can be skipped in front of a text can be skipped if the text is taken away. -/
theorem afterSeparator?_of_append (found : afterSeparator? (text ++ rest) = some (after ++ rest)) :
    afterSeparator? text = some after := by
  obtain ⟨piece, same, separator⟩ := afterSeparator?_eq_some_iff.1 found
  rw [← List.append_assoc, List.append_cancel_right_eq] at same
  exact afterSeparator?_eq_some_iff.2 ⟨piece, same, separator.truncate⟩

/-- Where something can be skipped, it can if the text goes on. -/
theorem hasGap_append (gap : hasGap text) (more : List Char) : hasGap (text ++ more) := by
  obtain ⟨rest, found⟩ := Option.isSome_iff_exists.1 gap
  obtain ⟨piece, rfl, separator⟩ := afterSeparator?_eq_some_iff.1 found
  suffices longer : ∃ piece' rest', Separator piece' rest' ∧ piece ++ (rest ++ more) = piece' ++ rest' by
    obtain ⟨piece', rest', separator', same⟩ := longer
    have found' := afterSeparator?_eq_some_iff.2 ⟨piece', rfl, separator'⟩
    rw [List.append_assoc, same, hasGap, found']
    rfl
  cases separator with
  | blank blank => exact ⟨_, _, .blank blank, rfl⟩
  | block clear => exact ⟨_, _, .block clear, rfl⟩
  | @line mark comment rest isMark clear ends =>
    cases rest with
    | cons c rest =>
      have ends' : ∀ d ∈ (c :: rest ++ more).head?, d = '\n' := ends
      exact ⟨_, _, .line isMark clear ends', rfl⟩
    | nil =>
      -- Without a line end the comment takes the next line of what is put behind it.
      have clear' : '\n' ∉ comment ++ more.takeWhile (· ≠ '\n') := by
        rw [List.mem_append, not_or]
        exact ⟨clear, (line_parts more).1⟩
      refine ⟨_, _, .line isMark clear' (line_parts more).2, ?_⟩
      rw [List.append_assoc, List.append_assoc, List.append_assoc,
        List.takeWhile_append_dropWhile, List.nil_append]

/-- What is skipped in front of a text is skipped if the text is taken away, and something is skipped
exactly if something was. -/
theorem skip_of_append (skipped : skip (text ++ rest) = after ++ rest) :
    skip text = after ∧ hasGap text = hasGap (text ++ rest) := by
  induction size : text.length using Nat.strong_induction_on generalizing text with
  | _ size ih =>
    cases found : afterSeparator? (text ++ rest) with
    | none =>
      rw [skip_of_none found, List.append_cancel_right_eq] at skipped
      have none : afterSeparator? text = none := by
        by_contra some
        have gap := hasGap_append (Option.isSome_iff_ne_none.2 some) rest
        rw [hasGap, found] at gap
        cases gap
      exact ⟨(skip_of_none none).trans skipped, by rw [hasGap, hasGap, none, found]⟩
    | some left =>
      rw [skip_of_some found] at skipped
      obtain ⟨before, split⟩ := skip_suffix left
      rw [skipped, ← List.append_assoc] at split
      obtain rfl := split
      have shorter := afterSeparator?_of_append found
      have less := length_of_afterSeparator? shorter
      obtain ⟨same, -⟩ := ih _ (size ▸ less) skipped rfl
      exact ⟨(skip_of_some shorter).trans same, by rw [hasGap, hasGap, shorter, found]; rfl⟩

end Separators

end ThriftIdl
