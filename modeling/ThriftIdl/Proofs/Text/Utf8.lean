import ThriftIdl.Text.Utf8

/-!
# What is UTF-8

Bytes are decoded to a text just if they are the UTF-8 code of that text (`decode_eq_ok_iff`). Each
byte that decoding takes is told by a law of its own, of which both directions are used
(`decodeFrom_lead_iff`, `decodeFrom_next_iff`, `decodeFrom_last_iff`), and so is the first character
(`decodeFrom_code_append`, `exists_code_of_decodeFrom`).
-/
namespace ThriftIdl.Text

variable {byte : UInt8} {bytes : List UInt8} {text : List Char}

/-! ### One byte after the other -/

/-- What is put in front of a text that was decoded. -/
theorem map_cons_eq_ok_iff {c : Char} {decoded : Except Utf8Fault (List Char)} :
    decoded.map (c :: ·) = .ok text ↔ ∃ rest, decoded = .ok rest ∧ text = c :: rest := by
  cases decoded with
  | error fault => simp [Except.map]
  | ok rest => simp [Except.map, eq_comm]

/-- A byte above the ASCII range begins a character. -/
theorem decodeFrom_lead_iff (lead : ¬ byte.toNat < 0x80) :
    decodeFrom none (byte :: bytes) = .ok text ↔
      ∃ begun, Begun.ofLead? byte.toNat = some begun ∧
        decodeFrom (some begun) bytes = .ok text := by
  rw [decodeFrom, if_neg lead]
  cases Begun.ofLead? byte.toNat <;> simp

/-- A byte that others follow goes on with the character that was begun. -/
theorem decodeFrom_next_iff {bits low high owed : Nat} :
    decodeFrom (some ⟨bits, low, high, owed + 1⟩) (byte :: bytes) = .ok text ↔
      (low ≤ byte.toNat ∧ byte.toNat ≤ high) ∧
        decodeFrom (some ⟨bits * 64 + byte.toNat % 64, 0x80, 0xBF, owed⟩) bytes = .ok text := by
  by_cases within : low ≤ byte.toNat ∧ byte.toNat ≤ high <;> simp [decodeFrom, within]

/-- The last byte of a character completes it. -/
theorem decodeFrom_last_iff {bits low high : Nat} :
    decodeFrom (some ⟨bits, low, high, 0⟩) (byte :: bytes) = .ok text ↔
      (low ≤ byte.toNat ∧ byte.toNat ≤ high) ∧
        ∃ rest, decodeFrom none bytes = .ok rest ∧
          text = Char.ofNat (bits * 64 + byte.toNat % 64) :: rest := by
  by_cases within : low ≤ byte.toNat ∧ byte.toNat ≤ high <;>
    simp [decodeFrom, within, map_cons_eq_ok_iff]

/-- A character that was begun goes on. -/
theorem exists_cons_of_decodeFrom {begun : Begun}
    (decoded : decodeFrom (some begun) bytes = .ok text) : ∃ byte rest, bytes = byte :: rest := by
  cases bytes with
  | nil => simp [decodeFrom] at decoded
  | cons byte rest => exact ⟨byte, rest, rfl⟩

/-- A byte begins a character of two, three or four bytes. -/
theorem Begun.ofLead?_eq_some_iff {byte : Nat} {begun : Begun} :
    ofLead? byte = some begun ↔
      (0xC2 ≤ byte ∧ byte ≤ 0xDF) ∧ begun = ⟨byte - 0xC0, 0x80, 0xBF, 0⟩ ∨
      (0xE0 ≤ byte ∧ byte ≤ 0xEF) ∧ begun = ⟨byte - 0xE0, if byte = 0xE0 then 0xA0 else 0x80,
        if byte = 0xED then 0x9F else 0xBF, 1⟩ ∨
      (0xF0 ≤ byte ∧ byte ≤ 0xF4) ∧ begun = ⟨byte - 0xF0, if byte = 0xF0 then 0x90 else 0x80,
        if byte = 0xF4 then 0x8F else 0xBF, 2⟩ := by
  obtain ⟨bits, low, high, owed⟩ := begun
  simp only [ofLead?, Bool.and_eq_true, decide_eq_true_eq, Begun.mk.injEq]
  grind

/-- The range of a second byte: it continues a character, and after some first bytes it has a narrower
range. -/
theorem within_iff {first last : Prop} [Decidable first] [Decidable last] {low high number : Nat}
    (least : 0x80 ≤ low) (greatest : high ≤ 0xBF) :
    ((if first then low else 0x80) ≤ number ∧ number ≤ if last then high else 0xBF) ↔
      (0x80 ≤ number ∧ number ≤ 0xBF) ∧ (first → low ≤ number) ∧ (last → number ≤ high) := by
  by_cases first <;> by_cases last <;> simp_all <;> omega

/-! ### One character after the other -/

/-- The code of a character of one byte. -/
theorem code_one {c : Char} (high : c.toNat < 0x80) :
    String.utf8EncodeChar c = [UInt8.ofNat c.toNat] := by
  have number : c.val.toNat = c.toNat := rfl
  rw [String.utf8EncodeChar, number, if_pos (by omega)]

/-- The code of a character of two bytes. -/
theorem code_two {c : Char} (low : 0x80 ≤ c.toNat) (high : c.toNat ≤ 0x7FF) :
    String.utf8EncodeChar c =
      [UInt8.ofNat (c.toNat / 64 + 0xC0), UInt8.ofNat (c.toNat % 64 + 0x80)] := by
  have number : c.val.toNat = c.toNat := rfl
  rw [String.utf8EncodeChar, number, if_neg (by omega), if_pos high, Nat.mod_eq_of_lt (by omega)]

/-- The code of a character of three bytes. -/
theorem code_three {c : Char} (low : 0x800 ≤ c.toNat) (high : c.toNat ≤ 0xFFFF) :
    String.utf8EncodeChar c =
      [UInt8.ofNat (c.toNat / 4096 + 0xE0), UInt8.ofNat (c.toNat / 64 % 64 + 0x80),
        UInt8.ofNat (c.toNat % 64 + 0x80)] := by
  have number : c.val.toNat = c.toNat := rfl
  rw [String.utf8EncodeChar, number, if_neg (by omega), if_neg (by omega), if_pos high,
    Nat.mod_eq_of_lt (by omega : c.toNat / 4096 < 16)]

/-- The code of a character of four bytes. -/
theorem code_four {c : Char} (low : 0x10000 ≤ c.toNat) (high : c.toNat < 0x110000) :
    String.utf8EncodeChar c =
      [UInt8.ofNat (c.toNat / 262144 + 0xF0), UInt8.ofNat (c.toNat / 4096 % 64 + 0x80),
        UInt8.ofNat (c.toNat / 64 % 64 + 0x80), UInt8.ofNat (c.toNat % 64 + 0x80)] := by
  have number : c.val.toNat = c.toNat := rfl
  rw [String.utf8EncodeChar, number, if_neg (by omega), if_neg (by omega), if_neg (by omega),
    Nat.mod_eq_of_lt (by omega : c.toNat / 262144 < 8)]

/-- A byte is told by its number. -/
theorem ofNat_eq_of_toNat (byte : UInt8) {number : Nat} (same : byte.toNat = number) :
    UInt8.ofNat number = byte := by
  rw [← same, UInt8.ofNat_toNat]

/-- The number of a small number as a byte. -/
theorem toNat_ofNat {number : Nat} (small : number < 256) : (UInt8.ofNat number).toNat = number := by
  rw [UInt8.toNat_ofNat', Nat.mod_eq_of_lt small]

/-- The number of a character. -/
theorem toNat_charOfNat (number : Nat)
    (valid : number < 0xD800 ∨ 0xDFFF < number ∧ number < 0x110000) :
    (Char.ofNat number).toNat = number := by
  rw [Char.ofNat, dif_pos valid]
  rfl

/-- The code of a character is decoded to it. -/
theorem decodeFrom_code_append (c : Char) (decoded : decodeFrom none bytes = .ok text) :
    decodeFrom none (String.utf8EncodeChar c ++ bytes) = .ok (c :: text) := by
  have range : c.toNat < 0xD800 ∨ 0xDFFF < c.toNat ∧ c.toNat < 0x110000 := c.valid
  have itself {number : Nat} (same : number = c.toNat) : c :: text = Char.ofNat number :: text := by
    rw [same, Char.ofNat_toNat]
  by_cases one : c.toNat < 0x80
  · have small : (UInt8.ofNat c.toNat).toNat = c.toNat := toNat_ofNat (by omega)
    rw [code_one one, List.singleton_append, decodeFrom, small, if_pos one, decoded,
      Char.ofNat_toNat]
    rfl
  have last : c.toNat % 64 + 0x80 < 256 := by omega
  by_cases two : c.toNat ≤ 0x7FF
  · have lead : c.toNat / 64 + 0xC0 < 256 := by omega
    rw [code_two (by omega) two]
    refine (decodeFrom_lead_iff ?_).2 ⟨_, Begun.ofLead?_eq_some_iff.2 (.inl ⟨?_, rfl⟩),
      decodeFrom_last_iff.2 ⟨?_, text, decoded, itself ?_⟩⟩
    all_goals
      simp only [toNat_ofNat, lead, last]
      omega
  have third : c.toNat / 64 % 64 + 0x80 < 256 := by omega
  by_cases three : c.toNat ≤ 0xFFFF
  · have lead : c.toNat / 4096 + 0xE0 < 256 := by omega
    rw [code_three (by omega) three]
    refine (decodeFrom_lead_iff ?_).2 ⟨_, Begun.ofLead?_eq_some_iff.2 (.inr (.inl ⟨?_, rfl⟩)),
      decodeFrom_next_iff.2 ⟨(within_iff (by decide) (by decide)).2 ?_,
        decodeFrom_last_iff.2 ⟨?_, text, decoded, itself ?_⟩⟩⟩
    all_goals
      simp only [toNat_ofNat, lead, third, last]
      omega
  · have lead : c.toNat / 262144 + 0xF0 < 256 := by omega
    have second : c.toNat / 4096 % 64 + 0x80 < 256 := by omega
    rw [code_four (by omega) (by omega)]
    refine (decodeFrom_lead_iff ?_).2 ⟨_, Begun.ofLead?_eq_some_iff.2 (.inr (.inr ⟨?_, rfl⟩)),
      decodeFrom_next_iff.2 ⟨(within_iff (by decide) (by decide)).2 ?_, decodeFrom_next_iff.2 ⟨?_,
        decodeFrom_last_iff.2 ⟨?_, text, decoded, itself ?_⟩⟩⟩⟩
    all_goals
      simp only [toNat_ofNat, lead, second, third, last]
      omega

/-- Bytes that are decoded begin with the code of the first character. -/
theorem exists_code_of_decodeFrom (decoded : decodeFrom none (byte :: bytes) = .ok text) :
    ∃ c rest more, byte :: bytes = String.utf8EncodeChar c ++ rest ∧ text = c :: more ∧
      decodeFrom none rest = .ok more := by
  by_cases ascii : byte.toNat < 0x80
  · rw [decodeFrom, if_pos ascii, map_cons_eq_ok_iff] at decoded
    obtain ⟨more, decoded, rfl⟩ := decoded
    have number : (Char.ofNat byte.toNat).toNat = byte.toNat :=
      toNat_charOfNat _ (by omega)
    refine ⟨_, bytes, more, ?_, rfl, decoded⟩
    rw [code_one (by omega), number, UInt8.ofNat_toNat, List.singleton_append]
  obtain ⟨begun, leads, decoded⟩ := (decodeFrom_lead_iff ascii).1 decoded
  obtain ⟨second, bytes, rfl⟩ := exists_cons_of_decodeFrom decoded
  -- The first byte tells how many follow; the bounds of the second rule out what a shorter code has.
  obtain ⟨lead, rfl⟩ | ⟨lead, rfl⟩ | ⟨lead, rfl⟩ := Begun.ofLead?_eq_some_iff.1 leads
  · obtain ⟨within, more, decodes, rfl⟩ := decodeFrom_last_iff.1 decoded
    have number := toNat_charOfNat
      ((byte.toNat - 0xC0) * 64 + second.toNat % 64) (by omega)
    refine ⟨_, bytes, more, ?_, rfl, decodes⟩
    rw [code_two (by omega) (by omega), number, ofNat_eq_of_toNat byte (by omega),
      ofNat_eq_of_toNat second (by omega)]
    rfl
  · obtain ⟨within, decoded⟩ := decodeFrom_next_iff.1 decoded
    obtain ⟨within, narrow, narrow'⟩ := (within_iff (by decide) (by decide)).1 within
    obtain ⟨third, bytes, rfl⟩ := exists_cons_of_decodeFrom decoded
    obtain ⟨within', more, decodes, rfl⟩ := decodeFrom_last_iff.1 decoded
    have number := toNat_charOfNat
      (((byte.toNat - 0xE0) * 64 + second.toNat % 64) * 64 + third.toNat % 64) (by omega)
    refine ⟨_, bytes, more, ?_, rfl, decodes⟩
    rw [code_three (by omega) (by omega), number, ofNat_eq_of_toNat byte (by omega),
      ofNat_eq_of_toNat second (by omega), ofNat_eq_of_toNat third (by omega)]
    rfl
  · obtain ⟨within, decoded⟩ := decodeFrom_next_iff.1 decoded
    obtain ⟨within, narrow, narrow'⟩ := (within_iff (by decide) (by decide)).1 within
    obtain ⟨third, bytes, rfl⟩ := exists_cons_of_decodeFrom decoded
    obtain ⟨within', decoded⟩ := decodeFrom_next_iff.1 decoded
    obtain ⟨fourth, bytes, rfl⟩ := exists_cons_of_decodeFrom decoded
    obtain ⟨within'', more, decodes, rfl⟩ := decodeFrom_last_iff.1 decoded
    have number := toNat_charOfNat
      ((((byte.toNat - 0xF0) * 64 + second.toNat % 64) * 64 + third.toNat % 64) * 64 +
        fourth.toNat % 64) (by omega)
    refine ⟨_, bytes, more, ?_, rfl, decodes⟩
    rw [code_four (by omega) (by omega), number, ofNat_eq_of_toNat byte (by omega),
      ofNat_eq_of_toNat second (by omega), ofNat_eq_of_toNat third (by omega),
      ofNat_eq_of_toNat fourth (by omega)]
    rfl

/-- Bytes are decoded to a text just if they are its code. -/
theorem decode_eq_ok_iff : decode bytes = .ok text ↔ bytes = text.flatMap String.utf8EncodeChar := by
  constructor
  · intro decoded
    induction length : bytes.length using Nat.strongRecOn generalizing bytes text with
    | _ size ih =>
      cases bytes with
      | nil =>
        obtain rfl := Except.ok.inj decoded
        rfl
      | cons byte bytes =>
        obtain ⟨c, rest, more, code, rfl, decodes⟩ := exists_code_of_decodeFrom decoded
        have shorter : rest.length < size := by
          have some := List.length_pos_iff.2 (String.utf8EncodeChar_ne_nil (c := c))
          rw [← length, code, List.length_append]
          omega
        rw [code, List.flatMap_cons, ih rest.length shorter decodes rfl]
  · rintro rfl
    induction text with
    | nil => rfl
    | cons c text ih => exact decodeFrom_code_append c ih

end ThriftIdl.Text
