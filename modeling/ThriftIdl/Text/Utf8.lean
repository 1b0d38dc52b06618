/-!
# Texts stored as bytes

A file holds UTF-8. Decoding reads one byte after the other and stops at the first byte that the
code rules out: a byte that starts no character, a byte outside the range that the bytes before
it leave open, or the end of the file inside a character. The range of the byte after a lead
byte is narrowed so that no character has a longer code than needed, and none is a surrogate or
lies beyond the last code point. A decoded text has line feeds as its only line ends.
-/
namespace ThriftIdl.Text

/-- Why bytes are not UTF-8. -/
inductive Utf8Fault where
  /-- No character starts with the byte. -/
  | invalidStart
  /-- The byte cannot continue the character that was begun. -/
  | invalidContinuation
  /-- The bytes end inside a character. -/
  | unexpectedEnd
deriving DecidableEq, Repr

/-- The reason in words. -/
def Utf8Fault.message : Utf8Fault → String
  | .invalidStart => "invalid start byte"
  | .invalidContinuation => "invalid continuation byte"
  | .unexpectedEnd => "unexpected end of data"

/-- A character that was begun: what its bytes so far say of its code, the range of the next
byte, and the number of bytes after that one. -/
structure Begun where
  /-- The bits of the bytes so far. -/
  bits : Nat
  /-- The least next byte. -/
  low : Nat
  /-- The greatest next byte. -/
  high : Nat
  /-- The number of bytes after the next. -/
  owed : Nat

/-- The character that a byte above the ASCII range begins. -/
def Begun.ofLead? (byte : Nat) : Option Begun :=
  if 0xC2 ≤ byte && byte ≤ 0xDF then some ⟨byte - 0xC0, 0x80, 0xBF, 0⟩
  else if byte = 0xE0 then some ⟨0, 0xA0, 0xBF, 1⟩
  else if byte = 0xED then some ⟨0xD, 0x80, 0x9F, 1⟩
  else if 0xE1 ≤ byte && byte ≤ 0xEF then some ⟨byte - 0xE0, 0x80, 0xBF, 1⟩
  else if byte = 0xF0 then some ⟨0, 0x90, 0xBF, 2⟩
  else if byte = 0xF4 then some ⟨4, 0x80, 0x8F, 2⟩
  else if 0xF1 ≤ byte && byte ≤ 0xF3 then some ⟨byte - 0xF0, 0x80, 0xBF, 2⟩
  else none

/-- Decode bytes, the first of which may continue a character that was begun. -/
def decodeFrom : Option Begun → List UInt8 → Except Utf8Fault (List Char)
  | none, [] => .ok []
  | some _, [] => .error .unexpectedEnd
  | none, byte :: bytes =>
    if byte.toNat < 0x80 then
      (decodeFrom none bytes).map (Char.ofNat byte.toNat :: ·)
    else
      match Begun.ofLead? byte.toNat with
      | none => .error .invalidStart
      | some begun => decodeFrom (some begun) bytes
  | some ⟨bits, low, high, owed⟩, byte :: bytes =>
    if low ≤ byte.toNat && byte.toNat ≤ high then
      let bits := bits * 64 + byte.toNat % 64
      match owed with
      | 0 => (decodeFrom none bytes).map (Char.ofNat bits :: ·)
      | owed + 1 => decodeFrom (some ⟨bits, 0x80, 0xBF, owed⟩) bytes
    else .error .invalidContinuation

/-- The text that bytes encode. -/
def decode (bytes : List UInt8) : Except Utf8Fault (List Char) := decodeFrom none bytes

/-- A text with each carriage return, alone or before a line feed, made a line feed. -/
def unixLines : List Char → List Char
  | '\r' :: '\n' :: text => '\n' :: unixLines text
  | '\r' :: text => '\n' :: unixLines text
  | c :: text => c :: unixLines text
  | [] => []

/-- No carriage return is left. -/
theorem return_notMem_unixLines (text : List Char) : '\r' ∉ unixLines text := by
  fun_induction unixLines text <;> simp_all [eq_comm]

end ThriftIdl.Text
