import ThriftIdl.Failure
import ThriftIdl.Proofs.Position

/-!
# Lines of a text and the order of positions

The table of a text and counting the line ends before an offset place a diagnosis alike. The line of an
offset within the text starts after a line end or where the text does, with as many line ends before it
as before the offset, and no other start has as many (`LineStart.unique`). So the start of the line and
the column lead back to the offset, and positions grow with offsets, by line and then by column
(`LineTable.position_of_offset`).
-/
namespace ThriftIdl

open Text

/-- A line of a text starts at an offset within it. -/
structure LineStart (text : List Char) (line start : Nat) : Prop where
  /-- The offset lies in the text. -/
  within : start ≤ text.length
  /-- Each earlier line has its end before the offset. -/
  before : (text.take start).count '\n' + 1 = line
  /-- The text starts there, or the line before ends. -/
  fresh : start = 0 ∨ text[start - 1]? = some '\n'

/-- A position is before another one: on an earlier line, or earlier on the same line. -/
def Position.Precedes (first second : Position) : Prop :=
  first.line < second.line ∨ first.line = second.line ∧ first.column < second.column

section Starts

variable {text : List Char} {line start : Nat}

/-- A line starts where it does if more is written after the text. -/
theorem LineStart.append (starts : LineStart text line start) (more : List Char) :
    LineStart (text ++ more) line start where
  within := by
    have within := starts.within
    rw [List.length_append]
    omega
  before := by
    rw [List.take_append_of_le_length starts.within]
    exact starts.before
  fresh := by
    by_cases first : start = 0
    · exact .inl first
    · have within := starts.within
      have inside : start - 1 < text.length := by omega
      rw [List.getElem?_append_left inside]
      exact .inr (starts.fresh.resolve_left first)

/-- The last line of a text starts after its last line end. -/
theorem lineStart_lastLineStart (text : List Char) :
    LineStart text (text.count '\n' + 1) (lastLineStart text) := by
  induction text using List.reverseRecOn with
  | nil => exact ⟨Nat.le_refl 0, rfl, .inl rfl⟩
  | append_singleton text c ih =>
    have part := lastLineLength_le text
    have length : (text ++ [c]).length = text.length + 1 := by
      rw [List.length_append, List.length_singleton]
    by_cases lineEnd : c = '\n'
    · have start : lastLineStart (text ++ [c]) = text.length + 1 := by
        rw [lastLineStart, lastLineLength_append_singleton, if_pos lineEnd, length]
        rfl
      rw [start]
      refine ⟨by omega, ?_, .inr ?_⟩
      · rw [List.take_of_length_le (by omega)]
      · rw [Nat.add_sub_cancel, List.getElem?_concat_length, lineEnd]
    · have start : lastLineStart (text ++ [c]) = lastLineStart text := by
        rw [lastLineStart, lastLineLength_append_singleton, if_neg lineEnd, length, lastLineStart]
        omega
      have ends : (text ++ [c]).count '\n' = text.count '\n' := by
        rw [List.count_append, List.count_singleton, if_neg (by simpa using lineEnd), Nat.add_zero]
      rw [start, ends]
      exact ih.append [c]

/-- The line of an offset starts after the last line end before the offset. -/
theorem lineStart_take (text : List Char) (offset : Nat) :
    LineStart text ((text.take offset).count '\n' + 1) (lastLineStart (text.take offset)) := by
  have starts := (lineStart_lastLineStart (text.take offset)).append (text.drop offset)
  rwa [List.take_append_drop] at starts

/-- Line ends do not get fewer with more text. -/
theorem count_take_le {a b : Nat} (text : List Char) (before : a ≤ b) :
    (text.take a).count '\n' ≤ (text.take b).count '\n' :=
  (List.take_prefix_take_left (l := text) before).sublist.count_le _

/-- Of two starts of lines the later one has more lines before it. -/
theorem LineStart.line_lt {line' start' : Nat} (first : LineStart text line start)
    (second : LineStart text line' start') (later : start < start') : line < line' := by
  have fewer : (text.take start).count '\n' ≤ (text.take (start' - 1)).count '\n' :=
    count_take_le text (by omega)
  have lineEnd : text[start' - 1]? = some '\n' := second.fresh.resolve_left (by omega)
  have parts : text.take start' = text.take (start' - 1) ++ ['\n'] := by
    have next := List.take_add_one (l := text) (i := start' - 1)
    rw [lineEnd, Nat.sub_add_cancel (by omega)] at next
    exact next
  have more : (text.take start').count '\n' = (text.take (start' - 1)).count '\n' + 1 := by
    rw [parts, List.count_append]
    rfl
  have count := first.before
  have count' := second.before
  omega

/-- A line starts at one offset only. -/
theorem LineStart.unique {start' : Nat} (first : LineStart text line start)
    (second : LineStart text line start') : start = start' := by
  by_contra other
  rcases Nat.lt_or_gt_of_ne other with later | earlier
  · have := first.line_lt second later
    omega
  · have := second.line_lt first earlier
    omega

end Starts

/-- Searching the table places an offset on the line that starts after the last line end before it. -/
theorem LineTable.position_eq_lineStart (text : List Char) (offset : Nat) :
    (ofText text).position offset =
      ⟨(text.take offset).count '\n' + 1, offset - lastLineStart (text.take offset) + 1⟩ := by
  rw [position_eq_counted, Position.counted, before_natCast]

/-- A later offset has a later position. -/
theorem LineTable.position_precedes (text : List Char) {a b : Nat} (before : a < b) :
    ((ofText text).position a).Precedes ((ofText text).position b) := by
  have fewer := count_take_le text (Nat.le_of_lt before)
  rw [position_eq_lineStart, position_eq_lineStart]
  by_cases same : (text.take a).count '\n' = (text.take b).count '\n'
  · have start := lineStart_take text a
    rw [same] at start
    have shared := start.unique (lineStart_take text b)
    refine .inr ⟨by rw [same], ?_⟩
    rw [shared]
    dsimp only
    omega
  · refine .inl ?_
    dsimp only
    omega

/-- A diagnosis lies where the table of its text places its offset. Within the text, the line tells how
many line ends are before the offset, and the offset is the start of that line with the columns before
it. A later offset has a later position. -/
theorem LineTable.position_of_offset (text : List Char) :
    (∀ (diagnosis : Diagnosis) (offset : Nat),
      { diagnosis with source := text, offset := offset : Diagnosis }.position =
        (ofText text).position offset) ∧
    (∀ offset ≤ text.length, ∃ line column start : Nat,
      (ofText text).position offset = ⟨line, column⟩ ∧
        (text.take offset).count '\n' + 1 = line ∧
        LineStart text line start ∧ start + column = offset + 1 ∧ 1 ≤ column) ∧
    ∀ a b : Nat, a < b → ((ofText text).position a).Precedes ((ofText text).position b) := by
  refine ⟨fun diagnosis offset => (position_eq_counted text offset).symm, ?_,
    fun a b => position_precedes text⟩
  intro offset within
  have part : lastLineStart (text.take offset) ≤ offset := by
    have short := List.length_take_le offset text
    rw [lastLineStart]
    omega
  refine ⟨(text.take offset).count '\n' + 1, offset - lastLineStart (text.take offset) + 1,
    lastLineStart (text.take offset), ?_, rfl, lineStart_take text offset, by omega, by omega⟩
  rw [position_eq_lineStart, Position.mk.injEq]
  constructor <;> omega

/-- The line end of an empty line, and the end of a text that does not end its last line. -/
theorem LineTable.position_of_offset_emptyLine :
    (ofText "a\n\nb".toList).position 2 = ⟨2, 1⟩ ∧ (ofText "a\n\nb".toList).position 4 = ⟨3, 2⟩ ∧
      (∃ start, LineStart "a\n\nb".toList 3 start ∧ start + 2 = 4 + 1) ∧
      ((ofText "a\n\nb".toList).position 2).Precedes ((ofText "a\n\nb".toList).position 4) := by
  obtain ⟨-, leads, grows⟩ := position_of_offset "a\n\nb".toList
  have emptyLine : (ofText "a\n\nb".toList).position 2 = ⟨2, 1⟩ := by
    decide +kernel
  have last : (ofText "a\n\nb".toList).position 4 = ⟨3, 2⟩ := by
    decide +kernel
  obtain ⟨line, column, start, position, -, starts, offset, -⟩ := leads 4 (by decide)
  obtain ⟨sameLine, sameColumn⟩ := Position.mk.inj (last.symm.trans position)
  obtain rfl : line = 3 := by omega
  exact ⟨emptyLine, last, ⟨start, starts, by omega⟩, grows 2 4 (by decide)⟩

end ThriftIdl
