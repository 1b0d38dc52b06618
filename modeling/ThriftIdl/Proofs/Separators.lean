import ThriftIdl.Proofs.Rising
import ThriftIdl.Proofs.Text.Ignored
import ThriftIdl.Proofs.Token.Lexer

/-!
# Blanks and comments at a cursor

Reading blanks and comments at a cursor fails where neither a blank nor a complete comment begins, and
leaves the session as it is (`Session.step_separator_of_no_gap`). Elsewhere it moves the cursor over the
longest sequence of terminals that are ignored between tokens, so that there is nothing to be skipped
behind it, and the reader of tokens goes on at the same place (`Session.skips_longest`).
-/
namespace ThriftIdl

open Text

namespace Session

/-- Blanks and comments are read from the cursor of one session to that of another one. -/
structure SkipsTo (session reached : Session) : Prop where
  /-- The cursor moves on. -/
  moves : ∃ skipped, skipped ≠ [] ∧ session.rest = skipped ++ reached.rest ∧
    reached.offset = session.offset + skipped.length
  /-- What it moves over is the longest sequence of terminals that are ignored. -/
  longest : Ignored.Longest session.rest reached.rest
  /-- If a block comment begins there that is not closed, that is noted as a failure at this place. -/
  unclosed : BeginsUnclosed reached.rest → ∃ diagnosis, diagnosis.kind = .unterminated ∧
    diagnosis.offset = reached.offset ∧ reached.furthest = Diagnosis.kept session.furthest diagnosis
  /-- Otherwise nothing is noted. -/
  clear : ¬ BeginsUnclosed reached.rest → reached.furthest = session.furthest
  /-- Skipping blanks and comments there finds none and changes nothing. -/
  again : reached.step .skipSeparator = (reached, .ok (.flag false))

/-- What reading blanks and comments does at the cursor of a session. -/
structure SkipsLongest (session : Session) : Prop where
  /-- Where neither a blank nor a complete comment begins, it fails at the cursor and leaves the session as
  it is. The failure is that something is not closed exactly if a block comment begins that is not. -/
  fails : ¬ BeginsSeparator session.rest → ∃ diagnosis,
    session.step (.production .separator) = (session, .error (.diagnosis diagnosis)) ∧
      diagnosis.offset = session.offset ∧ (diagnosis.kind = .unterminated ↔ BeginsUnclosed session.rest)
  /-- Elsewhere it moves the cursor on. -/
  reads : BeginsSeparator session.rest → ∃ reached,
    session.step (.production .separator) = (reached, .ok (.reading .nothing)) ∧ session.SkipsTo reached
  /-- A reader of tokens finds its next token behind the longest sequence of terminals that are ignored. -/
  tokens : ∀ expected previous total token after,
    nextToken expected previous total session.rest = .ok (token, after) →
      Ignored.Longest session.rest (token.text ++ after)

section Steps

variable {session : Session}

/-- A failure at the cursor has its place. -/
theorem offset_diagnosisHere (start : 0 ≤ session.offset) (reason : Reason) :
    (session.diagnosisHere reason).offset = session.offset := by
  have length := length_rest_eq start
  rw [diagnosisHere_eq start]
  show session.ending - (session.rest.length : Int) = session.offset
  omega

/-- Where nothing can be skipped, reading blanks and comments fails and leaves the session as it is. -/
theorem step_separator_of_no_gap (start : 0 ≤ session.offset) (gap : ¬ hasGap session.rest) :
    session.step (.production .separator) = (session, .error (.diagnosis (session.diagnosisHere
      (if opensBlock session.rest then .commentUnclosed else .separatorExpected)))) := by
  have fails : Lexical.separator session.rest = Reader.fail
      (if opensBlock session.rest then .commentUnclosed else .separatorExpected) session.rest := by
    rw [Lexical.separator, Option.not_isSome_iff_eq_none.1 gap]
  have kind : (if opensBlock session.rest then Reason.commentUnclosed
      else .separatorExpected).kind ≠ .nesting := by
    split <;> decide
  rw [step_production_eq, run_eq start, diagnosisHere_eq start, ← raised_eq kind]
  show session.afterwards _ _ (Reader.bind Lexical.separator _ session.rest) = _
  rw [Reader.bind, fails]
  exact (afterwards_fail (ne_outOfRange_of_kind kind)).trans (congrArg (·, _) (reach_rest start none))

/-- Where something can be skipped, reading blanks and comments leaves what skipping leaves. A block
comment that begins there is noted. -/
theorem step_separator_of_gap (start : 0 ≤ session.offset) (gap : hasGap session.rest) :
    session.step (.production .separator) =
      (session.reach (session.ending - (skip session.rest).length)
        (Lexical.unclosedNote (skip session.rest)), .ok (.reading .nothing)) := by
  obtain ⟨after, found⟩ := Option.isSome_iff_exists.1 gap
  have reads : Lexical.separator session.rest =
      .ok () (skip session.rest) (Lexical.unclosedNote (skip session.rest)) := by
    rw [Lexical.separator, found, skip_of_some found]
  rw [step_production_eq, run_eq start]
  show session.afterwards _ _ (Reader.bind Lexical.separator _ session.rest) = _
  rw [Reader.bind, reads]
  show (session.reach _ (Fault.best (Lexical.unclosedNote (skip session.rest)) none), _) = _
  cases Lexical.unclosedNote (skip session.rest) <;> rfl

/-- Where nothing can be skipped, skipping stays. A block comment that begins there is noted. -/
theorem step_skipSeparator_of_no_gap (start : 0 ≤ session.offset) (gap : ¬ hasGap session.rest) :
    session.step .skipSeparator =
      (session.reach session.offset (Lexical.unclosedNote session.rest), .ok (.flag false)) := by
  have stays : Lexical.skipSeparator session.rest =
      .ok false session.rest (Lexical.unclosedNote session.rest) := by
    rw [Lexical.skipSeparator, Option.not_isSome_iff_eq_none.1 gap]
  rw [step, run_eq start]
  show session.afterwards _ _ (Lexical.skipSeparator session.rest) = _
  rw [stays, ← reach_rest start]
  rfl

/-- What is noted up to the same end has the same diagnosis. -/
theorem diagnosis_reach {offset : Int} {noted : Option Fault}
    (ends : (session.reach offset noted).ending = session.ending) (fault : Fault) :
    (session.reach offset noted).diagnosis fault = session.diagnosis fault := by
  show Diagnosis.mk _ _ _ _ ((session.reach offset noted).ending - (fault.left : Int)) _ = _
  rw [ends]
  rfl

/-- What was noted before is not noted again. -/
theorem reach_again {offset : Int} {noted : Option Fault}
    (ends : (session.reach offset noted).ending = session.ending) :
    (session.reach offset noted).reach offset noted = session.reach offset noted := by
  cases noted with
  | none => rfl
  | some fault =>
    have kept := Diagnosis.kept_kept session.furthest (session.diagnosis fault) (session.diagnosis fault)
    rw [ite_self] at kept
    show Session.mk session.source session.limit offset session.depth
      (Diagnosis.kept (Diagnosis.kept session.furthest (session.diagnosis fault))
        ((session.reach offset (some fault)).diagnosis fault)) = _
    rw [diagnosis_reach ends, kept]
    rfl

/-- Reading blanks and comments where some begin leads on to the end of the longest sequence of them. -/
theorem skipsTo_of_gap (start : 0 ≤ session.offset) (gap : hasGap session.rest) :
    session.SkipsTo (session.reach (session.ending - (skip session.rest).length)
      (Lexical.unclosedNote (skip session.rest))) := by
  have suffix := skip_suffix session.rest
  have less := length_skip_lt_iff.2 gap
  have length := length_rest_eq start
  have no_gap : ¬ hasGap (skip session.rest) := by simp [hasGap, afterSeparator?_skip]
  have opens := opensBlock_iff_beginsUnclosed no_gap
  have left : (session.reach (session.ending - (skip session.rest).length)
      (Lexical.unclosedNote (skip session.rest))).rest = skip session.rest := rest_reach start suffix
  constructor
  · obtain ⟨skipped, parts⟩ := suffix
    have sizes := congrArg List.length parts
    rw [List.length_append] at sizes
    refine ⟨skipped, List.length_pos_iff.1 (by omega), by rw [left, parts], ?_⟩
    show session.ending - ((skip session.rest).length : Int) = _
    omega
  · rw [left]
    exact Ignored.longest_iff.2 rfl
  · intro begins
    rw [left] at begins
    rw [Lexical.unclosedNote, if_pos (opens.2 begins)]
    exact ⟨session.diagnosis ⟨.commentUnclosed, (skip session.rest).length⟩, rfl, rfl, rfl⟩
  · intro closed
    rw [left] at closed
    rw [Lexical.unclosedNote, if_neg fun begins => closed (opens.1 begins)]
    rfl
  · -- A block comment that is not closed was noted already, and is not better than itself.
    have start' : 0 ≤ session.ending - ((skip session.rest).length : Int) := by omega
    rw [step_skipSeparator_of_no_gap start' (left.symm ▸ no_gap), left]
    exact congrArg (·, _) (reach_again (ending_reach start suffix))

end Steps

/-- Wherever a cursor stands in a text or beyond it, reading blanks and comments fails and stays exactly
where none begins, and takes the longest sequence of them that there is. That is the sequence of terminals
that is ignored in front of a token. A block comment that is not closed is the failure, or what is noted
behind the last of them. -/
theorem skips_longest (source : List Char) (limit : Int) (offset : Nat) (depth : Int)
    (furthest : Option Diagnosis) : SkipsLongest ⟨source, limit, offset, depth, furthest⟩ := by
  have start : 0 ≤ (Session.mk source limit offset depth furthest).offset := Int.natCast_nonneg offset
  generalize Session.mk source limit offset depth furthest = session at start ⊢
  constructor
  · intro none
    have gap : ¬ hasGap session.rest := fun gap => none (hasGap_iff_beginsSeparator.1 gap)
    refine ⟨_, step_separator_of_no_gap start gap, offset_diagnosisHere start _, ?_⟩
    rw [← opensBlock_iff_beginsUnclosed gap]
    show Reason.kind _ = _ ↔ _
    cases opensBlock session.rest <;> simp [Reason.kind]
  · intro begins
    have gap := hasGap_iff_beginsSeparator.2 begins
    exact ⟨_, step_separator_of_gap start gap, skipsTo_of_gap start gap⟩
  · intro expected previous total token after next
    rw [Ignored.longest_iff]
    rcases nextToken_eq_ok_iff.1 next with ⟨ends, rfl, rfl⟩ | ⟨-, spelled, -⟩
    · exact ends.symm
    · exact spelled.symm

/-- Behind a line comment, a blank and a block comment, a block comment that is not closed is noted at its
own place. At its place it is the failure. -/
theorem skips_longest_unclosed :
    let source := "x // a\n/* /* */\t/*/".toList
    let behind : Session := ⟨source, 64, 2, 0, none⟩
    let at_mark : Session := ⟨source, 64, 16, 0, none⟩
    BeginsSeparator behind.rest ∧ BeginsUnclosed at_mark.rest ∧
      (∃ reached, behind.step (.production .separator) = (reached, .ok (.reading .nothing)) ∧
        behind.SkipsTo reached ∧ reached.offset = 16 ∧
        reached.furthest.map (fun noted => (noted.offset, noted.kind)) = some (16, .unterminated)) ∧
      ∃ diagnosis, at_mark.step (.production .separator) = (at_mark, .error (.diagnosis diagnosis)) ∧
        diagnosis.offset = 16 ∧ diagnosis.kind = .unterminated := by
  intro source behind at_mark
  have slashes : BeginsSeparator behind.rest := .slashes
  have opened : BeginsUnclosed at_mark.rest := ⟨['/'], rfl, by decide⟩
  have closed : ¬ BeginsSeparator at_mark.rest := fun begins =>
    absurd (hasGap_iff_beginsSeparator.2 begins) (by decide)
  obtain ⟨reached, stepped, skips⟩ := (skips_longest source 64 2 0 none).reads slashes
  obtain ⟨diagnosis, failed, place, kind⟩ := (skips_longest source 64 16 0 none).fails closed
  have moved : reached = (behind.step (.production .separator)).1 := (congrArg Prod.fst stepped).symm
  refine ⟨slashes, opened, ⟨reached, stepped, skips, ?_, ?_⟩, diagnosis, failed, place, kind.2 opened⟩
  · rw [moved]
    decide
  · rw [moved]
    decide

end Session
end ThriftIdl
