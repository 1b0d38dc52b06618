import ThriftIdl.Data.Basic
import ThriftIdl.Proofs.Double.Layout

/-!
# JSON texts

The grammar of JSON, each text with the data that it stands for. A number without a fraction and an
exponent is an integer and every other number the double nearest to it; a record has its entries in
the order of the text. The parts of a text are told apart by how they begin: what is read first of a
text is one character of a string (`Character.readCharacter?`), one number (`Number.Terse.unique`) or
one string (`Quoted.unique`), whatever follows it.
-/
namespace ThriftIdl.Json

open Text

section Blanks

/-- The characters that may stand between the parts of a text. -/
def isBlank (c : Char) : Bool := c = ' ' || c = '\t' || c = '\n' || c = '\r'

/-- Blanks only. -/
def Blank (text : List Char) : Prop := ∀ c ∈ text, isBlank c

/-- Nothing holds only blanks. -/
theorem blank_nil : Blank [] := by simp [Blank]

/-- A text begins, and not with a blank. -/
def Firm (text : List Char) : Prop := ∃ c tail, text = c :: tail ∧ isBlank c = false

/-- Blanks end where a text begins that does not begin with a blank. -/
theorem Blank.unique {before before' text text' : List Char} (blank : Blank before)
    (blank' : Blank before') (firm : Firm text) (firm' : Firm text')
    (same : before ++ text = before' ++ text') : before = before' ∧ text = text' := by
  obtain ⟨c, tail, rfl, other⟩ := firm
  obtain ⟨c', tail', rfl, other'⟩ := firm'
  have clear : ∀ {c tail}, isBlank c = false → (c :: tail).takeWhile isBlank = [] := by
    intro c tail other
    simp [other]
  have blanks := congrArg (List.takeWhile isBlank) same
  rw [List.takeWhile_append_of_pos blank, List.takeWhile_append_of_pos blank', clear other,
    clear other', List.append_nil, List.append_nil] at blanks
  exact ⟨blanks, List.append_cancel_left (blanks ▸ same)⟩

end Blanks

section Strings

/-- The value of a hexadecimal digit. -/
def hexDigit? (c : Char) : Option Nat :=
  if isDigit c then some (c.toNat - 48)
  else if 97 ≤ c.toNat && c.toNat ≤ 102 then some (c.toNat - 87)
  else if 65 ≤ c.toNat && c.toNat ≤ 70 then some (c.toNat - 55)
  else none

/-- The value of hexadecimal digits. -/
def hexValue? (digits : List Char) : Option Nat :=
  digits.foldlM (fun value c => (hexDigit? c).map (16 * value + ·)) 0

/-- A code unit of UTF-16 as four hexadecimal digits. -/
inductive CodeUnit : List Char → Nat → Prop where
  /-- The digits after a backslash and a letter. -/
  | digits {digits : List Char} {unit : Nat} (four : digits.length = 4)
      (value : hexValue? digits = some unit) : CodeUnit ('\\' :: 'u' :: digits) unit

/-- The letters that may stand after a backslash, with what they stand for. -/
def letterEscapes : List (Char × Char) :=
  [('\x22', '\x22'), ('\\', '\\'), ('/', '/'), ('b', '\x08'), ('f', '\x0c'), ('n', '\n'),
    ('r', '\r'), ('t', '\t')]

/-- A character of a string as it may be written. -/
inductive Character : List Char → Char → Prop where
  /-- As it is, but for the controls, the quote and the backslash. -/
  | plain {c : Char} (graphic : 32 ≤ c.toNat) (quote : c ≠ '\x22') (backslash : c ≠ '\\') :
      Character [c] c
  /-- By a letter after a backslash. -/
  | letter {letter c : Char} (known : letterEscapes.lookup letter = some c) :
      Character ['\\', letter] c
  /-- By its code unit. -/
  | unit {text : List Char} {c : Char} (unit : CodeUnit text c.toNat) : Character text c
  /-- By its two code units. -/
  | pair {first second : List Char} {c : Char} (beyond : 0x10000 ≤ c.toNat)
      (high : CodeUnit first (0xD800 + (c.toNat - 0x10000) / 0x400))
      (low : CodeUnit second (0xDC00 + (c.toNat - 0x10000) % 0x400)) : Character (first ++ second) c

/-- Characters of a string as they may be written. -/
inductive Characters : List Char → List Char → Prop where
  /-- None. -/
  | nil : Characters [] []
  /-- A character and others after it. -/
  | cons {first others : List Char} {c : Char} {cs : List Char} (head : Character first c)
      (tail : Characters others cs) : Characters (first ++ others) (c :: cs)

/-- A string: characters between quotes. -/
inductive Quoted : List Char → String → Prop where
  /-- The characters of the string. -/
  | characters {text : List Char} {content : String} (characters : Characters text content.toList) :
      Quoted ('\x22' :: text ++ ['\x22']) content

/-- The code unit at the start of a text, and the text after it. -/
def readUnit? : List Char → Option (Nat × List Char)
  | '\\' :: 'u' :: text => (hexValue? (text.take 4)).map (·, text.drop 4)
  | _ => none

/-- The character at the start of a text, and the text after it. -/
def readCharacter? (text : List Char) : Option (Char × List Char) :=
  match readUnit? text with
  | some (high, rest) =>
    if 0xD800 ≤ high ∧ high < 0xDC00 then
      (readUnit? rest).map fun (low, rest) =>
        (Char.ofNat (0x10000 + (high - 0xD800) * 0x400 + (low - 0xDC00)), rest)
    else some (Char.ofNat high, rest)
  | none =>
    match text with
    | '\\' :: letter :: rest => (letterEscapes.lookup letter).map (·, rest)
    | c :: rest => some (c, rest)
    | [] => none

variable {text text' rest rest' : List Char} {c : Char}

/-- A code unit is read where it is written. -/
theorem CodeUnit.readUnit? {unit : Nat} (written : CodeUnit text unit) (rest : List Char) :
    readUnit? (text ++ rest) = some (unit, rest) := by
  obtain ⟨four, value⟩ := written
  rw [List.cons_append, List.cons_append, Json.readUnit?, ← four, List.take_left, List.drop_left,
    value]
  rfl

/-- No character is a surrogate. -/
theorem toNat_lt_or_of_char (c : Char) :
    c.toNat < 0xD800 ∨ 0xDFFF < c.toNat ∧ c.toNat < 0x110000 := c.valid

/-- A character is read where it is written. -/
theorem Character.readCharacter? (written : Character text c) (rest : List Char) :
    readCharacter? (text ++ rest) = some (c, rest) := by
  have valid := toNat_lt_or_of_char c
  cases written with
  | plain graphic quote backslash => simp [Json.readCharacter?, Json.readUnit?, backslash]
  | @letter letter _ known =>
    have other : letter ≠ 'u' := by
      rintro rfl
      cases known
    simp [Json.readCharacter?, Json.readUnit?, other, known]
  | unit unit =>
    have single : ¬ (0xD800 ≤ c.toNat ∧ c.toNat < 0xDC00) := by omega
    simp only [Json.readCharacter?, unit.readUnit? rest, if_neg single, Char.ofNat_toNat]
  | pair beyond high low =>
    have first : 0xD800 ≤ 0xD800 + (c.toNat - 0x10000) / 0x400 ∧
        0xD800 + (c.toNat - 0x10000) / 0x400 < 0xDC00 := by omega
    have whole : 0x10000 + (0xD800 + (c.toNat - 0x10000) / 0x400 - 0xD800) * 0x400 +
        (0xDC00 + (c.toNat - 0x10000) % 0x400 - 0xDC00) = c.toNat := by omega
    rw [List.append_assoc]
    simp only [Json.readCharacter?, high.readUnit? _, if_pos first, low.readUnit? rest,
      Option.map_some, whole, Char.ofNat_toNat]

/-- A character does not begin with a quote. -/
theorem Character.head (written : Character text c) :
    ∃ first tail, text = first :: tail ∧ first ≠ '\x22' := by
  cases written with
  | plain _ quote _ => exact ⟨_, _, rfl, quote⟩
  | letter _ => exact ⟨_, _, rfl, by decide⟩
  | unit unit =>
    obtain ⟨_, _⟩ := unit
    exact ⟨_, _, rfl, by decide⟩
  | pair _ high _ =>
    obtain ⟨_, _⟩ := high
    exact ⟨_, _, rfl, by decide⟩

/-- Characters up to a quote are read in one way only. -/
theorem Characters.unique {cs cs' : List Char} (written : Characters text cs)
    (written' : Characters text' cs') (same : text ++ '\x22' :: rest = text' ++ '\x22' :: rest') :
    cs = cs' ∧ rest = rest' := by
  induction written generalizing text' cs' with
  | nil =>
    cases written' with
    | nil => exact ⟨rfl, (List.cons.inj same).2⟩
    | cons head _ =>
      obtain ⟨first, tail, rfl, other⟩ := head.head
      exact absurd (List.cons.inj same).1.symm other
  | @cons first others c cs head _ ih =>
    cases written' with
    | nil =>
      obtain ⟨first, tail, rfl, other⟩ := head.head
      exact absurd (List.cons.inj same).1 other
    | cons head' tail' =>
      rw [List.append_assoc, List.append_assoc] at same
      have read := head.readCharacter? (others ++ '\x22' :: rest)
      rw [same, head'.readCharacter?] at read
      simp only [Option.some.injEq, Prod.mk.injEq] at read
      obtain ⟨rfl, after⟩ := read
      obtain ⟨rfl, rests⟩ := ih tail' after.symm
      exact ⟨rfl, rests⟩

/-- A string is read in one way only, whatever follows it. -/
theorem Quoted.unique {content content' : String} (written : Quoted text content)
    (written' : Quoted text' content') (same : text ++ rest = text' ++ rest') :
    content = content' ∧ rest = rest' := by
  obtain ⟨characters⟩ := written
  obtain ⟨characters'⟩ := written'
  simp only [List.cons_append, List.append_assoc, List.nil_append, List.cons.injEq, true_and] at same
  obtain ⟨contents, rests⟩ := characters.unique characters' same
  exact ⟨String.toList_inj.1 contents, rests⟩

end Strings

section Values

variable {α : Type}

/-- What follows the first item up to the closing bracket: further items, each after a comma. -/
inductive Further (closing : Char) (part : List Char → α → Prop) : List Char → List α → Prop where
  /-- No further item. -/
  | none {before : List Char} (blank : Blank before) : Further closing part (before ++ [closing]) []
  /-- An item and others after it. -/
  | some {before between text after : List Char} {item : α} {items : List α} (blank : Blank before)
      (blank' : Blank between) (first : part text item) (others : Further closing part after items) :
      Further closing part (before ++ ',' :: between ++ text ++ after) (item :: items)

/-- Items between brackets. -/
inductive Sequence (opening closing : Char) (part : List Char → α → Prop) :
    List Char → List α → Prop where
  /-- No item. -/
  | none {before : List Char} (blank : Blank before) :
      Sequence opening closing part (opening :: before ++ [closing]) []
  /-- An item and others after it. -/
  | some {before text after : List Char} {item : α} {items : List α} (blank : Blank before)
      (first : part text item) (others : Further closing part after items) :
      Sequence opening closing part (opening :: before ++ text ++ after) (item :: items)

/-- A name and a value after a colon. -/
inductive Member (value : List Char → Data → Prop) : List Char → String × Data → Prop where
  /-- The name is a string. -/
  | entry {name : String} {first before after text : List Char} {data : Data}
      (quoted : Quoted first name) (blank : Blank before) (blank' : Blank after)
      (given : value text data) : Member value (first ++ before ++ ':' :: after ++ text) (name, data)

/-- A value. -/
inductive Value : List Char → Data → Prop where
  /-- Nothing. -/
  | null : Value "null".toList .null
  /-- Yes or no. -/
  | flag (value : Bool) : Value (if value then "true" else "false").toList (.flag value)
  /-- An integer. -/
  | int {number : Number} (terse : number.Terse) (integral : number.isIntegral = true) :
      Value number.text (.int (signedValue number.text))
  /-- A double. -/
  | double {number : Number} (terse : number.Terse) (fractional : number.isIntegral = false) :
      Value number.text (.double number.toDouble)
  /-- A string. -/
  | text {text : List Char} {content : String} (quoted : Quoted text content) :
      Value text (.text content)
  /-- A list. -/
  | list {text : List Char} {items : List Data} (each : Sequence '[' ']' Value text items) :
      Value text (.list items)
  /-- A record. -/
  | record {text : List Char} {entries : List (String × Data)}
      (each : Sequence '\x7b' '\x7d' (Member Value) text entries) : Value text (.record entries)

/-- A text: a value that may have blanks around it. -/
inductive IsText : List Char → Data → Prop where
  /-- The value of the text. -/
  | value {before text after : List Char} {data : Data} (blank : Blank before)
      (given : Value text data) (blank' : Blank after) : IsText (before ++ text ++ after) data

variable {text text' : List Char} {data : Data}

/-- The kinds of data, as far as the first character tells them. -/
inductive Kind where
  /-- Nothing. -/
  | null
  /-- Yes or no. -/
  | flag (value : Bool)
  /-- A number. -/
  | number
  /-- A text. -/
  | text
  /-- A list. -/
  | list
  /-- Named entries. -/
  | record

/-- The kind of data. -/
def kind : Data → Kind
  | .null => .null
  | .flag value => .flag value
  | .int _ | .double _ => .number
  | .text _ => .text
  | .list _ => .list
  | .record _ => .record

/-- The kind of what begins with a character. -/
def kindOf? (c : Char) : Option Kind :=
  if c = '-' || isDigit c then some .number
  else if c = 'n' then some .null
  else if c = 't' then some (.flag true)
  else if c = 'f' then some (.flag false)
  else if c = '\x22' then some .text
  else if c = '[' then some .list
  else if c = '\x7b' then some .record
  else none

/-- A text begins as an item between brackets does: neither with a blank nor with the closing
bracket. -/
def Starts (text : List Char) : Prop :=
  ∃ c tail, text = c :: tail ∧ isBlank c = false ∧ c ∉ [']', '\x7d']

/-- An item does not begin with a blank, whatever follows it. -/
theorem Starts.firm (starts : Starts text) (more : List Char) : Firm (text ++ more) := by
  obtain ⟨c, tail, rfl, other, -⟩ := starts
  exact ⟨c, tail ++ more, rfl, other⟩

/-- Nothing begins with a blank or with a closing bracket. -/
theorem starts_of_kindOf? {c : Char} {kind : Kind} (tells : kindOf? c = some kind)
    (tail : List Char) : Starts (c :: tail) := by
  by_contra other
  have ends : c = ' ' ∨ c = '\t' ∨ c = '\n' ∨ c = '\r' ∨ c = ']' ∨ c = '\x7d' := by
    by_contra none
    exact other ⟨c, tail, rfl, by simp_all [isBlank], by simp_all⟩
  obtain rfl | rfl | rfl | rfl | rfl | rfl := ends <;> cases tells

/-- Items between brackets begin with the opening one. -/
theorem Sequence.head {opening closing : Char} {part : List Char → α → Prop} {items : List α}
    (each : Sequence opening closing part text items) : ∃ tail, text = opening :: tail := by
  cases each <;> exact ⟨_, rfl⟩

/-- What a value begins with tells its kind. -/
theorem Value.exists_kindOf? (value : Value text data) :
    ∃ c tail, text = c :: tail ∧ kindOf? c = some (kind data) := by
  cases value with
  | null => exact ⟨_, _, rfl, rfl⟩
  | flag value => cases value <;> exact ⟨_, _, rfl, rfl⟩
  | int terse _ | double terse _ =>
    obtain ⟨c, tail, digit, signed | unsigned⟩ := terse.exists_text
    · exact ⟨_, _, signed, rfl⟩
    · exact ⟨_, _, unsigned, by simp [kindOf?, digit, kind]⟩
  | text quoted =>
    obtain ⟨_⟩ := quoted
    exact ⟨_, _, rfl, rfl⟩
  | list each | record each =>
    obtain ⟨tail, rfl⟩ := each.head
    exact ⟨_, _, rfl, rfl⟩

/-- A value begins as an item between brackets does. -/
theorem Value.starts (value : Value text data) : Starts text := by
  obtain ⟨c, tail, rfl, tells⟩ := value.exists_kindOf?
  exact starts_of_kindOf? tells tail

/-- The first character of a text that begins with a value tells the kind of the value. -/
theorem Value.kindOf?_eq {rest tail : List Char} {c : Char} (value : Value text data)
    (same : text ++ rest = c :: tail) : kindOf? c = some (kind data) := by
  obtain ⟨c', tail', rfl, tells⟩ := value.exists_kindOf?
  exact (List.cons.inj same).1 ▸ tells

/-- The data of a number. -/
def numberData (number : Number) : Data :=
  if number.isIntegral then .int (signedValue number.text) else .double number.toDouble

/-- Only a number is of the kind of numbers. -/
theorem Value.exists_number (value : Value text data) (number : kind data = .number) :
    ∃ number : Number, number.Terse ∧ text = number.text ∧ data = numberData number := by
  cases value with
  | int terse integral => exact ⟨_, terse, rfl, (if_pos integral).symm⟩
  | double terse fractional => exact ⟨_, terse, rfl, by rw [numberData, fractional]; rfl⟩
  | _ => cases number

end Values

end ThriftIdl.Json
