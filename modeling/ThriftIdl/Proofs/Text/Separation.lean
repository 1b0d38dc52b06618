import Mathlib.Data.List.Infix
import ThriftIdl.Comment

/-!
# What skipping leaves

Skipping takes blanks and complete comments off a text until none is left, so that a second
skipping changes nothing (`skip_skip`), and it moves exactly where something can be skipped
(`skip_eq_self_iff`).
-/
namespace ThriftIdl

open Text

/-- More rounds than characters change nothing. -/
theorem skipWithin_eq_skip {rounds : Nat} {text : List Char} (enough : text.length ≤ rounds) :
    skipWithin rounds text = skip text := by
  suffices same : ∀ {rounds rounds' : Nat} {text : List Char}, text.length ≤ rounds →
      text.length ≤ rounds' → skipWithin rounds text = skipWithin rounds' text from
    same enough (Nat.le_refl _)
  intro rounds
  induction rounds with
  | zero =>
    intro rounds' text none _
    obtain rfl := List.eq_nil_of_length_eq_zero (Nat.le_zero.1 none)
    cases rounds' <;> rfl
  | succ rounds ih =>
    intro rounds' text enough enough'
    cases rounds' with
    | zero =>
      obtain rfl := List.eq_nil_of_length_eq_zero (Nat.le_zero.1 enough')
      rfl
    | succ rounds' =>
      simp only [skipWithin]
      split
      next rest found =>
        have shorter := length_of_afterSeparator? found
        exact ih (by omega) (by omega)
      next => rfl

/-- Where nothing can be skipped, skipping stays. -/
theorem skip_of_none {text : List Char} (nothing : afterSeparator? text = none) :
    skip text = text := by
  cases text with
  | nil => rfl
  | cons c text => simp [skip, skipWithin, nothing]

/-- Skipping goes on after a blank or a comment. -/
theorem skip_of_some {text rest : List Char} (found : afterSeparator? text = some rest) :
    skip text = skip rest := by
  have shorter := length_of_afterSeparator? found
  cases text with
  | nil => cases found
  | cons c text =>
    simp only [skip, List.length_cons, skipWithin, found]
    exact skipWithin_eq_skip (by simpa using Nat.le_of_lt_succ shorter)

/-- A complete comment can be skipped. -/
theorem afterSeparator?_of_scanComment? {text rest comment : List Char}
    (scanned : scanComment? text = some (comment, rest)) : afterSeparator? text = some rest := by
  cases text with
  | nil => cases scanned
  | cons c tail =>
    have blank : ¬ isBlank c := by
      intro blank
      simp only [isBlank, Bool.or_eq_true, decide_eq_true_eq] at blank
      rcases blank with ((rfl | rfl) | rfl) | rfl <;> cases scanned
    rw [afterSeparator?, if_neg blank, scanned]
    rfl

/-- Skipping goes on after a run of blanks. -/
theorem skip_dropWhile_isBlank (text : List Char) : skip (text.dropWhile isBlank) = skip text := by
  induction text with
  | nil => rfl
  | cons c text ih =>
    cases blank : isBlank c with
    | false => rw [List.dropWhile_cons_of_neg (by simp [blank])]
    | true =>
      have found : afterSeparator? (c :: text) = some text := by simp [afterSeparator?, blank]
      rw [List.dropWhile_cons_of_pos blank, ih, skip_of_some found]

/-- Skipping twice is skipping once. -/
@[simp] theorem skip_skip (text : List Char) : skip (skip text) = skip text :=
  skip_of_none (afterSeparator?_skip text)

/-- What is left after a comment is the end of the text. -/
theorem suffix_of_scanComment? {text comment rest : List Char}
    (scanned : scanComment? text = some (comment, rest)) : rest <:+ text := by
  simp only [scanComment?] at scanned
  split at scanned
  next after starts =>
    simp only [Option.some.injEq, Prod.mk.injEq] at scanned
    obtain ⟨_, rfl⟩ := scanned
    simp only [afterLineMark?, Option.or_eq_some_iff, after?_eq_some_iff] at starts
    refine (List.dropWhile_suffix _).trans ?_
    rcases starts with same | ⟨_, same⟩ <;> exact same ▸ List.suffix_append _ _
  next =>
    obtain ⟨after, starts, ends⟩ := Option.bind_eq_some_iff.1 scanned
    rw [after?_eq_some_iff.1 starts, eq_of_splitAt? ends]
    exact (List.suffix_append _ _).trans (List.suffix_append _ _)

/-- What is left after one step of skipping is the end of the text. -/
theorem suffix_of_afterSeparator? {text rest : List Char}
    (found : afterSeparator? text = some rest) : rest <:+ text := by
  cases text with
  | nil => cases found
  | cons c text =>
    simp only [afterSeparator?] at found
    split at found
    next => exact Option.some.inj found ▸ List.suffix_cons c text
    next =>
      simp only [Option.map_eq_some_iff] at found
      obtain ⟨⟨comment, _⟩, scanned, rfl⟩ := found
      exact suffix_of_scanComment? scanned

/-- What is left after skipping is the end of the text. -/
theorem skip_suffix (text : List Char) : skip text <:+ text := by
  induction size : text.length using Nat.strong_induction_on generalizing text with
  | _ size ih =>
    cases found : afterSeparator? text with
    | none => rw [skip_of_none found]
    | some rest =>
      have shorter := length_of_afterSeparator? found
      rw [skip_of_some found]
      exact (ih rest.length (size ▸ shorter) rest rfl).trans (suffix_of_afterSeparator? found)

/-- Skipping does not lengthen a text. -/
theorem length_skip_le (text : List Char) : (skip text).length ≤ text.length :=
  (skip_suffix text).length_le

/-- Skipping shortens a text exactly where something can be skipped. -/
theorem length_skip_lt_iff {text : List Char} :
    (skip text).length < text.length ↔ (afterSeparator? text).isSome := by
  cases found : afterSeparator? text with
  | none => simp [skip_of_none found]
  | some rest =>
    have shorter := length_of_afterSeparator? found
    have further := length_skip_le rest
    rw [skip_of_some found]
    simp only [Option.isSome_some, iff_true]
    omega

/-- Skipping leaves a text as long as it is exactly where nothing can be skipped. -/
theorem length_skip_eq_iff {text : List Char} :
    (skip text).length = text.length ↔ (afterSeparator? text).isSome = false := by
  have shorter := length_skip_le text
  rw [← Bool.not_eq_true, ← length_skip_lt_iff]
  omega

/-- Skipping stays exactly where nothing can be skipped. -/
theorem skip_eq_self_iff {text : List Char} : skip text = text ↔ afterSeparator? text = none := by
  constructor
  · intro same
    rw [← same]
    exact afterSeparator?_skip text
  · exact skip_of_none

/-- Only a blank or the beginning of a comment can be skipped. -/
theorem afterSeparator?_cons_eq_none {c : Char} {text : List Char} (blank : ¬ isBlank c)
    (slash : c ≠ '/') (hash : c ≠ '#') : afterSeparator? (c :: text) = none := by
  have line : afterLineMark? (c :: text) = none := by
    simp [afterLineMark?, after?, Ne.symm slash, Ne.symm hash]
  have block : after? ['/', '*'] (c :: text) = none := by
    simp [after?, Ne.symm slash]
  simp [afterSeparator?, blank, scanComment?, line, block]

end ThriftIdl
