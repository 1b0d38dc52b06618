import Mathlib.Logic.Relation
import ThriftIdl.Proofs.Text.Pattern
import ThriftIdl.Proofs.Text.Skipped

/-!
# What is ignored between tokens

The grammar ignores three terminals between tokens: blanks, comments to the end of the line and comments
between their marks. Each has a pattern whose first way counts, and the matches follow each other
(`Ignored.Passes`). The longest sequence of matches at the start of a text leaves what skipping leaves
(`Ignored.longest_iff`). It is empty exactly where neither a blank nor a complete comment begins
(`hasGap_iff_beginsSeparator`).
-/
namespace ThriftIdl

open Text

namespace Pattern

/-- One given character. -/
def char (c : Char) : Pattern := one (· = c)

/-- Blanks: `[ \t\r\n]+`. -/
def blanks : Pattern := both (one isBlank) (run isBlank)

/-- The mark of a comment to the end of the line: `\/\/|#`. -/
def lineMark : Pattern := either (both (char '/') (char '/')) (char '#')

/-- A comment to the end of the line: `(\/\/|#)[^\n]*`. -/
def lineComment : Pattern := both lineMark (run (· ≠ '\n'))

section Ways

variable {text : List Char}

/-- A character is matched where a text begins with it. -/
theorem rests_char (c : Char) : (char c).rests text = (after? [c] text).toList := by
  cases text with
  | nil => rfl
  | cons d text =>
    by_cases same : c = d
    · simp [char, rests, after?, same]
    · simp [char, rests, after?, same, Ne.symm same]

/-- Two characters are matched where a text begins with them. -/
theorem rests_both_char (c d : Char) :
    (both (char c) (char d)).rests text = (after? [c, d] text).toList := by
  cases text with
  | nil => rfl
  | cons first text =>
    by_cases same : c = first <;> simp [rests, rests_char, after?, same]

/-- The pattern of blanks matches all blanks that there are, if there is one. -/
theorem head?_rests_blanks :
    (blanks.rests text).head? = if text.head?.any isBlank then some (text.dropWhile isBlank) else none := by
  cases text with
  | nil => rfl
  | cons c text =>
    cases blank : isBlank c with
    | false => simp [blanks, rests, blank]
    | true =>
      have longest : ((run isBlank).rests text).head? = _ := head?_rests_run
      simpa [blanks, rests, blank] using longest

/-- The pattern of a comment to the end of the line matches it as a whole. -/
theorem head?_rests_lineComment :
    (lineComment.rests text).head? = (afterLineMark? text).map (List.dropWhile (· ≠ '\n')) := by
  have marks : (lineMark.rests text).head? = afterLineMark? text := by
    rw [lineMark, rests, rests_both_char, rests_char, List.head?_append]
    simp [afterLineMark?]
  cases found : afterLineMark? text with
  | some rest => exact head?_rests_both (marks.trans found) head?_rests_run
  | none =>
    rw [found, List.head?_eq_none_iff] at marks
    simp [lineComment, rests, marks]

end Ways

end Pattern

/-! ### Terminals -/

/-- The terminals that are ignored between tokens. -/
inductive Ignored where
  /-- Blanks. -/
  | blanks
  /-- A comment to the end of the line. -/
  | lineComment
  /-- A comment between its marks. -/
  | blockComment
deriving DecidableEq, Repr

namespace Ignored

open Pattern (char both)

/-- What the ways to match a terminal leave of a text, in the order in which they are tried. The ends of
a block comment, `\/\*[\s\S]*?\*\/`, are tried with as few characters before them as possible. -/
def rests : Ignored → List Char → List (List Char)
  | blanks, text => Pattern.blanks.rests text
  | lineComment, text => Pattern.lineComment.rests text
  | blockComment, text =>
    ((both (char '/') (char '*')).rests text).flatMap fun body =>
      body.tails.flatMap (both (char '*') (char '/')).rests

/-- What is left of a text after a match of a terminal: what the first way leaves. -/
def Leaves (text rest : List Char) : Prop := ∃ terminal : Ignored, (terminal.rests text).head? = some rest

/-- What is left of a text after matches of terminals that follow each other. -/
def Passes : List Char → List Char → Prop := Relation.ReflTransGen Leaves

/-- A rest is left of a text after the longest sequence of matches. -/
structure Longest (text rest : List Char) : Prop where
  /-- It is left after a sequence of matches. -/
  passes : Passes text rest
  /-- No sequence of matches goes further. -/
  longest : ∀ left, Passes text left → rest <:+ left

section Matches

variable {text rest : List Char}

/-- A comment between its marks is matched up to the first closing mark. -/
theorem head?_rests_blockComment :
    (blockComment.rests text).head? =
      ((after? ['/', '*'] text).bind (splitAt? ['*', '/'])).map Prod.snd := by
  have closes : ∀ body : List Char, (body.tails.flatMap (both (char '*') (char '/')).rests).head? =
      (splitAt? ['*', '/'] body).map Prod.snd := by
    intro body
    induction body with
    | nil => rfl
    | cons c body ih =>
      rw [List.tails, List.flatMap_cons, List.head?_append, ih, Pattern.rests_both_char, splitAt?]
      cases after? ['*', '/'] (c :: body) with
      | some left => rfl
      | none => cases splitAt? ['*', '/'] body <;> rfl
  rw [rests, Pattern.rests_both_char]
  cases after? ['/', '*'] text with
  | none => rfl
  | some body => simpa using closes body

/-- A match takes all blanks that there are, or else a complete comment. -/
theorem leaves_iff :
    Leaves text rest ↔ text.head?.any isBlank ∧ text.dropWhile isBlank = rest ∨
      ∃ comment, scanComment? text = some (comment, rest) := by
  constructor
  · rintro ⟨terminal, matched⟩
    cases terminal with
    | blanks =>
      rw [rests, Pattern.head?_rests_blanks, Option.ite_none_right_eq_some, Option.some.injEq] at matched
      exact .inl matched
    | lineComment =>
      rw [rests, Pattern.head?_rests_lineComment] at matched
      obtain ⟨after, starts, rfl⟩ := Option.map_eq_some_iff.1 matched
      exact .inr ⟨_, by rw [scanComment?, starts]⟩
    | blockComment =>
      rw [head?_rests_blockComment] at matched
      obtain ⟨⟨comment, left⟩, scanned, rfl⟩ := Option.map_eq_some_iff.1 matched
      obtain ⟨after, starts, -⟩ := Option.bind_eq_some_iff.1 scanned
      exact .inr ⟨comment, by rw [scanComment?, afterLineMark?_of_block starts, scanned]⟩
  · rintro (⟨blank, rfl⟩ | ⟨comment, scanned⟩)
    · exact ⟨blanks, by rw [rests, Pattern.head?_rests_blanks, if_pos blank]⟩
    · rw [scanComment?] at scanned
      split at scanned
      next after starts =>
        obtain ⟨-, rfl⟩ := Prod.mk.inj (Option.some.inj scanned)
        exact ⟨lineComment, by rw [rests, Pattern.head?_rests_lineComment, starts]; rfl⟩
      next => exact ⟨blockComment, by rw [head?_rests_blockComment, scanned]; rfl⟩

/-- After a match the same is skipped. -/
theorem Leaves.skip_eq (leaves : Leaves text rest) : skip text = skip rest := by
  rcases leaves_iff.1 leaves with ⟨-, rfl⟩ | ⟨comment, scanned⟩
  · exact (skip_dropWhile_isBlank text).symm
  · exact skip_of_some (afterSeparator?_of_scanComment? scanned)

/-- Where something can be skipped, a terminal is matched, and less is left. -/
theorem exists_leaves (gap : hasGap text) : ∃ rest, Leaves text rest ∧ rest.length < text.length := by
  obtain ⟨left, found⟩ := Option.isSome_iff_exists.1 gap
  cases text with
  | nil => cases found
  | cons c tail =>
    by_cases blank : isBlank c
    · refine ⟨_, leaves_iff.2 (.inl ⟨blank, rfl⟩), ?_⟩
      rw [List.dropWhile_cons_of_pos blank]
      exact Nat.lt_succ_of_le (List.dropWhile_suffix _).length_le
    · rw [afterSeparator?, if_neg blank] at found
      obtain ⟨⟨comment, _⟩, scanned, rfl⟩ := Option.map_eq_some_iff.1 found
      exact ⟨_, leaves_iff.2 (.inr ⟨comment, scanned⟩), length_of_scanComment? scanned⟩

/-- After matches that follow each other the same is skipped. -/
theorem Passes.skip_eq (passes : Passes text rest) : skip text = skip rest := by
  induction passes with
  | refl => rfl
  | tail _ leaves ih => exact ih.trans leaves.skip_eq

/-- What is skipped is matched by terminals that follow each other. -/
theorem passes_skip (text : List Char) : Passes text (skip text) := by
  induction size : text.length using Nat.strong_induction_on generalizing text with
  | _ size ih =>
    cases gap : hasGap text with
    | false =>
      rw [skip_of_none (Option.not_isSome_iff_eq_none.1 (by simpa [hasGap] using gap))]
      exact .refl
    | true =>
      obtain ⟨rest, leaves, less⟩ := exists_leaves gap
      rw [leaves.skip_eq]
      exact .head leaves (ih rest.length (size ▸ less) rest rfl)

/-- The longest sequence of matches leaves what skipping leaves. -/
theorem longest_iff : Longest text rest ↔ rest = skip text := by
  have further (left : List Char) (passes : Passes text left) : skip text <:+ left :=
    passes.skip_eq ▸ skip_suffix left
  constructor
  · rintro ⟨passes, longest⟩
    exact (longest _ (passes_skip text)).eq_of_length_le (further rest passes).length_le
  · rintro rfl
    exact ⟨passes_skip text, further⟩

end Matches

end Ignored

/-! ### What begins a text -/

/-- A blank or a complete comment begins a text. A comment to the end of the line is complete at the end
of the text as well. -/
inductive BeginsSeparator : List Char → Prop where
  /-- A blank. -/
  | blank {c : Char} {rest : List Char} : isBlank c → BeginsSeparator (c :: rest)
  /-- Two slashes. -/
  | slashes {rest : List Char} : BeginsSeparator ('/' :: '/' :: rest)
  /-- A hash. -/
  | hash {rest : List Char} : BeginsSeparator ('#' :: rest)
  /-- The opening mark of a block comment, and its closing mark somewhere after it. -/
  | block {body : List Char} : ['*', '/'] <:+: body → BeginsSeparator ('/' :: '*' :: body)

/-- A block comment begins a text, and no closing mark stands after its opening mark. -/
def BeginsUnclosed (text : List Char) : Prop :=
  ∃ body, text = '/' :: '*' :: body ∧ ¬ ['*', '/'] <:+: body

section Beginnings

variable {text : List Char}

/-- Something can be skipped exactly where a blank or a complete comment begins. -/
theorem hasGap_iff_beginsSeparator : hasGap text ↔ BeginsSeparator text := by
  constructor
  · intro gap
    obtain ⟨rest, found⟩ := Option.isSome_iff_exists.1 gap
    obtain ⟨piece, rfl, separator⟩ := afterSeparator?_eq_some_iff.1 found
    cases separator with
    | blank blank => exact .blank blank
    | line mark =>
      rcases mark with rfl | rfl
      · exact .slashes
      · exact .hash
    | block => exact .block ⟨_, _, rfl⟩
  · intro begins
    cases begins with
    | blank blank => simp [hasGap, afterSeparator?, blank]
    | slashes => rfl
    | hash => rfl
    | block closed =>
      obtain ⟨before, after, rfl⟩ := closed
      have split : (splitAt? ['*', '/'] (before ++ '*' :: '/' :: after)).isSome :=
        Option.isSome_iff_exists.2 (exists_splitAt? before ['*', '/'] after)
      simpa [hasGap, afterSeparator?, isBlank, scanComment?, afterLineMark?, after?] using split

/-- Where nothing can be skipped, a block comment that begins is not closed. -/
theorem opensBlock_iff_beginsUnclosed (gap : ¬ hasGap text) : opensBlock text ↔ BeginsUnclosed text := by
  constructor
  · intro opens
    obtain ⟨body, begins⟩ := Option.isSome_iff_exists.1 opens
    obtain rfl := after?_eq_some_iff.1 begins
    exact ⟨body, rfl, fun closed => gap (hasGap_iff_beginsSeparator.2 (.block closed))⟩
  · rintro ⟨body, rfl, -⟩
    rfl

end Beginnings

end ThriftIdl
