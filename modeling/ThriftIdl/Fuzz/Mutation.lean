import ThriftIdl.Fuzz.Generator
import ThriftIdl.Text.Digit
import ThriftIdl.Token.Basic

/-!
# Mutations

A text is changed at a place drawn at random. A mutation inserts something, takes a chunk away or
repeats it, swaps the halves of the text, changes a character within its block of 128, or replaces
numbers by others at a bound. Main statement: `flipped_toNat`, a changed character is the one whose
code has the drawn bits turned.
-/
namespace ThriftIdl.Fuzz

open Draw

/-- The ways to change a text. -/
inductive Mutation where
  /-- Insert a token or blanks. -/
  | insertToken
  /-- Take a chunk away. -/
  | deleteChunk
  /-- Swap the halves. -/
  | swapHalves
  /-- Repeat a chunk. -/
  | repeatChunk
  /-- Change a character. -/
  | flipChar
  /-- Insert what is likely to do harm. -/
  | insertSpecial
  /-- Replace numbers by others at a bound. -/
  | boundaryNumbers
deriving DecidableEq, Repr

/-- All mutations. -/
def Mutation.all : List Mutation := [
  .insertToken, .deleteChunk, .swapHalves, .repeatChunk, .flipChar, .insertSpecial,
  .boundaryNumbers]

/-- A text with something inserted at an offset. -/
def inserted (text : List Char) (offset : Nat) (insertion : List Char) : List Char :=
  text.take offset ++ insertion ++ text.drop offset

/-- Insert a token or blanks. Every kind of token is drawn before one of them is chosen. -/
def insertToken (text : List Char) : Draw (List Char) := do
  let offset ← upTo text.length
  let keyword ← oneOf Keyword.structural
  let punctuation ← oneOf [",", ";", ":", "=", "<", ">", "*"]
  let bracket ← oneOf ["(", ")", "[", "]", "\x7b", "\x7d"]
  let comment ← oneOf ["// note\n", "# note\n", "/* note */", "/**/"]
  let name ← name
  let number ← number
  let blanks ← few
  let insertion ← oneOf [
    keyword.text, punctuation, bracket, comment, name, number,
    String.ofList (List.replicate blanks ' '), "\n", "\t"] (by simp)
  return inserted text offset insertion.toList

/-- The bounds of a chunk of a text of two or more characters: at least one character and at most
so many. -/
def chunk (text : List Char) (most : Nat) (long : 2 ≤ text.length) (some : 0 < most) :
    Draw (Nat × Nat) := do
  let ⟨start, bound⟩ ← upTo (text.length - 1)
  let stop ← between (start + 1) (min (start + most) text.length) (by omega)
  return (start, stop)

/-- Take a chunk of at most twenty characters away. -/
def deleteChunk (text : List Char) : Draw (List Char) :=
  if long : 2 ≤ text.length then do
    let (start, stop) ← chunk text 20 long (by decide)
    return text.take start ++ text.drop stop
  else return text

/-- A text with its halves swapped, if it has four characters or more. -/
def swapHalves (text : List Char) : List Char :=
  if text.length < 4 then text
  else text.drop (text.length / 2) ++ text.take (text.length / 2)

/-- Repeat a chunk of at most ten characters up to five times. -/
def repeatChunk (text : List Char) : Draw (List Char) :=
  if long : 2 ≤ text.length then do
    let (start, stop) ← chunk text 10 long (by decide)
    let count ← few
    let repeated := (List.replicate count.val ((text.take stop).drop start)).flatten
    return text.take stop ++ repeated ++ text.drop stop
  else return text ++ text

/-- A character with the bits of a mask turned. -/
def flipped (mask : Nat) (c : Char) : Char := Char.ofNat (c.toNat ^^^ mask)

/-- Turning low bits does not leave the block of 128 numbers. -/
theorem xor_div_block {n mask : Nat} (low : mask < 128) : (n ^^^ mask) / 128 = n / 128 := by
  have powers : (128 : Nat) = 2 ^ 7 := rfl
  have mask_block : mask / 2 ^ 7 = 0 := Nat.div_eq_of_lt low
  rw [powers, Nat.xor_div_two_pow, mask_block, Nat.xor_zero]

/-- A changed character is the one whose code has the drawn bits turned: blocks of 128 codes
consist of characters, or of none. -/
theorem flipped_toNat {mask : Nat} (low : mask < 128) (c : Char) :
    (flipped mask c).toNat = c.toNat ^^^ mask := by
  have block := xor_div_block (n := c.toNat) low
  have valid : c.toNat.isValidChar := c.valid
  have stays : (c.toNat ^^^ mask).isValidChar := by
    simp only [Nat.isValidChar] at valid ⊢
    omega
  unfold flipped Char.ofNat
  rw [dif_pos stays]
  rfl

/-- Change a character. -/
def flipChar (text : List Char) : Draw (List Char) :=
  match text with
  | [] => return []
  | c :: rest => do
    let offset ← upTo rest.length
    let mask ← between 1 127
    return (c :: rest).modify offset (flipped mask)

/-- Insert what is likely to do harm: odd characters, what opens something and does not close
it, and deep nesting. -/
def insertSpecial (text : List Char) : Draw (List Char) := do
  let offset ← upTo text.length
  let special ← oneOf [
    ['\x00'], ['\xff'], ['\r', '\n'], ['\x0c'], ['α'], ['\x22'], ['\x27'], ['/', '*'],
    List.replicate 100 '[', (List.replicate 100 "list<".toList).flatten] (by decide)
  return inserted text offset special

/-- The number at the start of a text: digits of any script after an optional minus sign, and
perhaps a point with digits after it. -/
def plainNumber? (text : List Char) : Option (List Char) :=
  let digit (c : Char) : Bool := (Text.digitValue? c).isSome
  let (sign, unsigned) :=
    match text with
    | '-' :: rest => (['-'], rest)
    | rest => ([], rest)
  let whole := unsigned.takeWhile digit
  let fraction :=
    match unsigned.dropWhile digit with
    | '.' :: rest =>
      let places := rest.takeWhile digit
      if places.isEmpty then [] else '.' :: places
    | _ => []
  if whole.isEmpty then none else some (sign ++ whole ++ fraction)

/-- A piece of a text. -/
inductive Piece where
  /-- A number. -/
  | number (text : List Char)
  /-- A character outside of numbers. -/
  | other (c : Char)
deriving DecidableEq, Repr

/-- The pieces of a text, from a place on that lies a few characters further. -/
def pieces : Nat → List Char → List Piece
  | _, [] => []
  | skipped + 1, _ :: text => pieces skipped text
  | 0, c :: text =>
    match plainNumber? (c :: text) with
    | some number => .number number :: pieces (number.length - 1) text
    | none => .other c :: pieces 0 text

/-- Replace a number, as often as not, by one at a bound. -/
def replacePiece : Piece → Draw (List Char)
  | .other c => return [c]
  | .number text => do
    if ← chance 500 then
      return (← oneOf [
        "0", "-1", "1", "9223372036854775807", "-9223372036854775808", "9223372036854775808",
        "99999999999999999999999", "1e9999", "0.0000000001"]).toList
    else return text

/-- Replace numbers by others at a bound. -/
def boundaryNumbers (text : List Char) : Draw (List Char) := do
  return (← (pieces 0 text).mapM replacePiece).flatten

/-- Change a text in a given way. -/
def Mutation.apply (text : List Char) : Mutation → Draw (List Char)
  | .insertToken => Fuzz.insertToken text
  | .deleteChunk => Fuzz.deleteChunk text
  | .swapHalves => return Fuzz.swapHalves text
  | .repeatChunk => Fuzz.repeatChunk text
  | .flipChar => Fuzz.flipChar text
  | .insertSpecial => Fuzz.insertSpecial text
  | .boundaryNumbers => Fuzz.boundaryNumbers text

/-- Change a text in a way drawn at random. -/
def mutate (text : List Char) : Draw (List Char) := do
  let mutation ← oneOf Mutation.all
  mutation.apply text

/-- Change a text several times. -/
def mutateTimes : Nat → List Char → Draw (List Char)
  | 0, text => return text
  | count + 1, text => do mutateTimes count (← mutate text)

end ThriftIdl.Fuzz
