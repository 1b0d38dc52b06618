import ThriftIdl.Text.Printable

/-!
# Quoted texts

A text is shown between single quotes, or between double quotes when it holds a single quote and
no double quote. The backslash, the enclosing quote, line feed, carriage return and tabulator are
shown after a backslash, and every other unprintable character by its code in two, four or eight
hexadecimal digits.
-/
namespace ThriftIdl.Text

/-- The quotes that may enclose a text or a literal. -/
inductive Quote where
  /-- An apostrophe. -/
  | single
  /-- A double quotation mark. -/
  | double
deriving DecidableEq, Repr

/-- The character of a quote. -/
def Quote.char : Quote → Char
  | .single => '\x27'
  | .double => '\x22'

/-- The quote that a character is, if it is one. -/
def Quote.ofChar? (c : Char) : Option Quote :=
  if c = Quote.single.char then some .single
  else if c = Quote.double.char then some .double
  else none

/-- Only the character of a quote is that quote. -/
theorem Quote.ofChar?_eq_some_iff {c : Char} {quote : Quote} :
    Quote.ofChar? c = some quote ↔ c = quote.char := by
  simp only [Quote.ofChar?]
  split
  next same => subst same; cases quote <;> decide
  next notSingle =>
    split
    next same => subst same; cases quote <;> decide
    next notDouble => cases quote <;> simp [notSingle, notDouble]

/-- The last `width` hexadecimal digits of a number, in lower case. -/
def hexDigits : Nat → Nat → List Char
  | 0, _ => []
  | width + 1, n => hexDigits width (n / 16) ++ [Nat.digitChar (n % 16)]

/-- The quote that encloses a text: the double one only around a text with single quotes alone. -/
def enclosing (text : List Char) : Quote :=
  if text.contains Quote.single.char && !text.contains Quote.double.char then .double else .single

/-- A character as it stands inside a quoted text. -/
def escaped (quote : Quote) (c : Char) : List Char :=
  if c = '\\' || c = quote.char then ['\\', c]
  else if c = '\n' then ['\\', 'n']
  else if c = '\r' then ['\\', 'r']
  else if c = '\t' then ['\\', 't']
  else if isPrintable c then [c]
  else if c.toNat < 0x100 then '\\' :: 'x' :: hexDigits 2 c.toNat
  else if c.toNat < 0x10000 then '\\' :: 'u' :: hexDigits 4 c.toNat
  else '\\' :: 'U' :: hexDigits 8 c.toNat

/-- A text between quotes, with escapes. -/
def quoted (text : List Char) : List Char :=
  let quote := enclosing text
  quote.char :: text.flatMap (escaped quote) ++ [quote.char]

end ThriftIdl.Text
