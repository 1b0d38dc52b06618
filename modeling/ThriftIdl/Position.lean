/-!
# Lines and columns

A position is the line and the column of an offset into a text, both counted from one; a line
ends at its line feed, which still belongs to it. Positions are computed in two ways: by counting
the line ends before the offset (`Position.counted`), and by binary search in a table of the
starts of the lines (`LineTable.position`), which is made once for a text. A negative offset is
counted back from the end of the text where a part of the text is cut out, but it lies before
the first line of a table.
-/
namespace ThriftIdl

/-- A place in a text for readers: line and column, both counted from one. -/
structure Position where
  /-- The number of the line. -/
  line : Int
  /-- The number of the character in its line. -/
  column : Int
deriving DecidableEq, Repr

namespace Text

/-- The number of characters before an offset; a negative one is counted back from the end. -/
def index (text : List Char) (offset : Int) : Nat :=
  if offset < 0 then (text.length + offset).toNat else offset.toNat

/-- The text before an offset. -/
def before (text : List Char) (offset : Int) : List Char := text.take (index text offset)

/-- The text from an offset on. -/
def since (text : List Char) (offset : Int) : List Char := text.drop (index text offset)

/-- The offset at which a text ends that is read from an offset on, which may lie beyond its
end. -/
def ending (text : List Char) (start : Int) : Int :=
  if text.length < start then start else text.length

/-- The number of characters after the last line end of a text. -/
def lastLineLength (text : List Char) : Nat := (text.reverse.takeWhile (· ≠ '\n')).length

/-- The number of characters up to the last line end of a text, with that line end. -/
def lastLineStart (text : List Char) : Nat := text.length - lastLineLength text

end Text

/-- The position of an offset, by counting the line ends before it. An offset beyond the end of
the text counts as columns of its last line. -/
def Position.counted (text : List Char) (offset : Int) : Position :=
  let before := Text.before text offset
  ⟨before.count '\n' + 1, offset - Text.lastLineStart before + 1⟩

/-- The offsets at which the lines of a text start, in order. -/
structure LineTable where
  /-- The starts; the first is zero. -/
  starts : Array Nat
deriving Repr

/-- The starts of the lines after the first, for a text that stands at a given offset. -/
def laterLineStarts : Nat → List Char → List Nat
  | _, [] => []
  | offset, c :: text =>
    if c = '\n' then (offset + 1) :: laterLineStarts (offset + 1) text
    else laterLineStarts (offset + 1) text

/-- The table of a text. -/
def LineTable.ofText (text : List Char) : LineTable := ⟨(0 :: laterLineStarts 0 text).toArray⟩

/-- The number of starts between two indices that do not lie beyond an offset, added to the
first index, by halving the interval. -/
def LineTable.searchBetween (table : LineTable) (offset : Int) (low high : Nat) : Nat :=
  if inside : low < high then
    let middle := (low + high) / 2
    if (table.starts.getD middle 0 : Int) ≤ offset then
      table.searchBetween offset (middle + 1) high
    else table.searchBetween offset low middle
  else low
termination_by high - low

/-- The position of an offset, by binary search among the starts of the lines. Before the first
line lies line nought, whose columns are counted from the start of the last line. -/
def LineTable.position (table : LineTable) (offset : Int) : Position :=
  let line := table.searchBetween offset 0 table.starts.size
  let index := if line = 0 then table.starts.size - 1 else line - 1
  ⟨line, offset - table.starts.getD index 0 + 1⟩

end ThriftIdl
