import ThriftIdl.Token.Lexer

/-!
# Literals as parts of a text

A literal ends at the first quote that is like its opening one, so that what is matched as a literal
depends on nothing after it (`matchLiteral?_eq_some_iff`).
-/
namespace ThriftIdl

open Text

/-- A text is split at the first place where a character stands. -/
theorem splitAt?_singleton_eq_some_iff {c : Char} {text before rest : List Char} :
    splitAt? [c] text = some (before, rest) ↔ text = before ++ c :: rest ∧ c ∉ before := by
  induction text generalizing before with
  | nil => simp [splitAt?, after?]
  | cons d text ih =>
    simp only [splitAt?, after?]
    by_cases same : c = d
    · subst same
      cases before with
      | nil => simp
      | cons e before =>
        simp only [↓reduceIte, Option.some.injEq, Prod.mk.injEq, List.nil_eq, reduceCtorEq,
          false_and, List.cons_append, List.cons.injEq, List.mem_cons, not_or, false_iff, not_and]
        intro head _
        exact absurd head.1.symm (by simp_all)
    · simp only [same, ↓reduceIte, Option.map_eq_some_iff, Prod.mk.injEq]
      constructor
      · rintro ⟨⟨first, last⟩, later, rfl, rfl⟩
        obtain ⟨rfl, clear⟩ := ih.1 later
        simp [same, clear]
      · rintro ⟨split, clear⟩
        cases before with
        | nil =>
          simp only [List.nil_append, List.cons.injEq] at split
          exact absurd split.1.symm same
        | cons e before =>
          simp only [List.cons_append, List.cons.injEq] at split
          obtain ⟨rfl, rfl⟩ := split
          simp only [List.mem_cons, not_or] at clear
          exact ⟨(before, rest), ih.2 ⟨rfl, clear.2⟩, rfl, rfl⟩

/-- A literal as it is written: a text between two equal quotes that does not hold that quote. -/
def IsLiteral (text : List Char) : Prop :=
  ∃ (quote : Quote) (value : List Char), text = quote.char :: (value ++ [quote.char]) ∧
    quote.char ∉ value

/-- A literal is matched exactly where it is written. -/
theorem matchLiteral?_eq_some_iff {text literal rest : List Char} :
    matchLiteral? text = some (literal, rest) ↔ text = literal ++ rest ∧ IsLiteral literal := by
  constructor
  · intro found
    match text with
    | [] => cases found
    | c :: text =>
      simp only [matchLiteral?] at found
      split at found
      next => cases found
      next quote opening =>
        obtain rfl := Quote.ofChar?_eq_some_iff.1 opening
        simp only [Option.map_eq_some_iff, Prod.mk.injEq] at found
        obtain ⟨⟨value, after⟩, split, rfl, rfl⟩ := found
        obtain ⟨rfl, clear⟩ := splitAt?_singleton_eq_some_iff.1 split
        exact ⟨by simp, quote, value, by simp, clear⟩
  · rintro ⟨rfl, quote, value, rfl, clear⟩
    have opening : Quote.ofChar? quote.char = some quote := Quote.ofChar?_eq_some_iff.2 rfl
    have split : splitAt? [quote.char] (value ++ quote.char :: rest) = some (value, rest) :=
      splitAt?_singleton_eq_some_iff.2 ⟨rfl, clear⟩
    simp [matchLiteral?, opening, split]

/-- A text that begins with no quote begins with no literal. -/
theorem matchLiteral?_cons_eq_none {c : Char} {text : List Char} (single : c ≠ Quote.single.char)
    (double : c ≠ Quote.double.char) : matchLiteral? (c :: text) = none := by
  simp [matchLiteral?, Quote.ofChar?, single, double]

end ThriftIdl
