import ThriftIdl.Data.Basic

/-!
# Plain data as JSON text

Each item of a list and each entry of a record stands on a line of its own, indented by two blanks
for each level. Texts consist of ASCII characters only: the quote, the backslash and the common
controls are escaped by a letter, all others by the code units of UTF-16. The infinite doubles
are written in words.
-/
namespace ThriftIdl

open Text

/-- A code unit of UTF-16 as an escape. -/
def unitEscape (unit : Nat) : List Char := '\\' :: 'u' :: hexDigits 4 unit

/-- A character inside a JSON text. -/
def jsonEscaped (c : Char) : List Char :=
  if c = '\x22' || c = '\\' then ['\\', c]
  else if c = '\n' then ['\\', 'n']
  else if c = '\r' then ['\\', 'r']
  else if c = '\t' then ['\\', 't']
  else if c = '\x0c' then ['\\', 'f']
  else if c = '\x08' then ['\\', 'b']
  else if 32 ≤ c.toNat && c.toNat < 127 then [c]
  else if c.toNat < 0x10000 then unitEscape c.toNat
  else
    let beyond := c.toNat - 0x10000
    unitEscape (0xD800 + beyond / 0x400) ++ unitEscape (0xDC00 + beyond % 0x400)

/-- A text between quotes. -/
def jsonText (text : String) : List Char :=
  '\x22' :: text.toList.flatMap jsonEscaped ++ ['\x22']

/-- A double in JSON. -/
def jsonDouble : Double → List Char
  | .number negative magnitude =>
    if magnitude.isFinite then (Double.number negative magnitude).text
    else (if negative then "-Infinity" else "Infinity").toList
  | .nan => "NaN".toList

/-- The start of a line at a level. -/
def newLine (level : Nat) : List Char := '\n' :: List.replicate (2 * level) ' '

/-- Parts on lines of their own between brackets. -/
def jsonBlock (level : Nat) (opening closing : Char) (parts : List (List Char)) : List Char :=
  if parts.isEmpty then [opening, closing]
  else
    opening :: newLine (level + 1) ++ (',' :: newLine (level + 1)).intercalate parts ++
      newLine level ++ [closing]

mutual
/-- Data at a level. -/
def Data.json (level : Nat) : Data → List Char
  | .null => "null".toList
  | .flag value => (if value then "true" else "false").toList
  | .int value => integer value
  | .double value => jsonDouble value
  | .text text => jsonText text
  | .list items => jsonBlock level '[' ']' (jsonItems (level + 1) items)
  | .record entries => jsonBlock level '\x7b' '\x7d' (jsonEntries (level + 1) entries)

/-- The items of a list. -/
def jsonItems (level : Nat) : List Data → List (List Char)
  | [] => []
  | item :: items => item.json level :: jsonItems level items

/-- The entries of a record. -/
def jsonEntries (level : Nat) : List (String × Data) → List (List Char)
  | [] => []
  | (name, value) :: entries =>
    (jsonText name ++ ':' :: ' ' :: value.json level) :: jsonEntries level entries
end

end ThriftIdl
