import ThriftIdl.Proofs.Text.Joined
import ThriftIdl.Proofs.Text.Separated
import ThriftIdl.Proofs.Token.Steps
import ThriftIdl.Token.Grammar

/-!
# Reading tokens of a text that goes on

If another text follows on the next line, every token but the end stays where it is, and its place is
moved by the characters that are added (`nextToken_joined`). A reader of tokens that does not reach
the end of a text reads the same then (`Follows`): it looks only at the kind of the token ahead, and
what it does with the number of characters left is to bound its rounds and levels by it.
-/
namespace ThriftIdl

open Text

variable {second : List Char}

/-- After the end of a text nothing is left. -/
def Ahead.Sound (ahead : Ahead) : Prop := ahead.token.terminal = .ending → ahead.rest = []

/-- A token moved by as many characters as a text on the next line and its line end have. -/
def Token.moved (second : List Char) (token : Token) : Token :=
  { token with left := token.left + (second.length + 1) }

/-- What is ahead if a text follows on the next line. -/
def Ahead.joined (second : List Char) (ahead : Ahead) : Ahead :=
  ⟨ahead.token.moved second, ahead.rest ++ '\n' :: second, ahead.invalid⟩

section Tokens

variable {follow : Expected} {text rest found : List Char} {token : Token} {total : Nat}

/-- A token stands where it did if more follows on the next line. -/
theorem Terminal.Before.joined {terminal : Terminal} (before : terminal.Before follow found rest) :
    terminal.Before follow found (rest ++ '\n' :: second) := by
  have numbers := scanNumber_append_foreign (foreign_lineEnd second) (found ++ rest) fun _ => true
  rw [List.append_assoc] at numbers
  cases terminal with
  | keyword word => exact ⟨before.1, fun named => (before.2 named).append (closed_lineEnd second)⟩
  | mark symbol => exact before
  | identifier => exact ⟨before.1, before.2.1.append (closed_lineEnd second), before.2.2⟩
  | literal => exact before
  | double =>
    obtain ⟨number, scanned, digits, whole⟩ := before
    exact ⟨number, by rw [numbers, scanned], digits, whole⟩
  | integer =>
    obtain ⟨isInteger, stop, whole⟩ := before
    exact ⟨isInteger, stop.append (foreign_lineEnd second), by rw [numbers]; exact whole⟩
  | ending => exact before

/-- The characters of a token have the shape of its terminal, whatever follows them. -/
theorem Terminal.Before.whole {terminal : Terminal} (before : terminal.Before follow found rest) :
    terminal.shape.Whole (fun _ => true) found := by
  cases terminal with
  | keyword word => exact before.isName rfl
  | identifier => exact before.1
  | mark symbol => exact before
  | literal => exact before
  | double =>
    have shaped : Shape.double.Before (fun _ => true) found rest := before
    exact shaped.whole
  | integer => exact before.1
  | ending => exact before.elim

/-- Nothing can be skipped before a token, whatever follows it. -/
theorem Terminal.Before.skip {terminal : Terminal} (before : terminal.Before follow found rest)
    (more : List Char) : ThriftIdl.skip (found ++ more) = found ++ more := by
  obtain ⟨c, tail, rfl⟩ := List.exists_cons_of_ne_nil before.ne_nil
  exact skip_cons_of_not_opensGap ((before.whole.before closed_nil).not_opensGap c (by simp)) _

/-- Whether tokens touch does not depend on their places. -/
theorem touching_moved {previous : Token} : touching (previous.moved second) (token.moved second) =
    touching previous token := rfl

/-- Nothing is left after the end of a text. -/
theorem sound_of_nextToken {previous : Option Token} {ahead : Ahead}
    (next : nextToken follow previous total text = .ok (ahead.token, ahead.rest)) : ahead.Sound := by
  intro ending
  rcases nextToken_eq_ok_iff.1 next with ⟨-, -, nothing⟩ | ⟨-, -, stands, -⟩
  · exact nothing
  · rw [ending] at stands
    exact stands.elim

/-- The next token is the same if more follows on the next line. -/
theorem nextToken_joined {previous : Option Token} {total' : Nat}
    (next : nextToken follow previous total text = .ok (token, rest))
    (inside : token.terminal ≠ .ending) :
    nextToken follow (previous.map (Token.moved second)) total' (text ++ '\n' :: second) =
      .ok (token.moved second, rest ++ '\n' :: second) := by
  rcases nextToken_eq_ok_iff.1 next with ⟨-, rfl, -⟩ | ⟨mem, spelled, stands, left, loose⟩
  · exact absurd rfl inside
  · have spelled' : skip (text ++ '\n' :: second) = token.text ++ (rest ++ '\n' :: second) := by
      rw [skip_append (.lineEnd _ second), spelled, List.append_assoc, stands.skip]
    refine nextToken_eq_ok_iff.2 (.inr ⟨mem, spelled', stands.joined, ?_, ?_⟩)
    · rw [spelled', ← List.append_assoc, length_joined, ← spelled, ← left]
      rfl
    · intro gap moved among
      obtain ⟨before, mem, rfl⟩ := Option.map_eq_some_iff.1 among
      rw [touching_moved]
      refine loose ?_ before mem
      by_contra apart
      rw [hasGap_joined (by simpa using apart)] at gap
      cases gap

/-- There is no token exactly if nothing is left. -/
theorem ending_of_nextToken {previous : Option Token}
    (next : nextToken follow previous total text = .ok (token, rest)) :
    token.terminal = .ending ↔ skip text = [] := by
  rcases nextToken_eq_ok_iff.1 next with ⟨ends, rfl, -⟩ | ⟨-, spelled, stands, -⟩
  · exact ⟨fun _ => ends, fun _ => rfl⟩
  · constructor
    · intro ending
      rw [ending] at stands
      exact stands.elim
    · intro ends
      rw [ends] at spelled
      exact absurd (List.append_eq_nil_iff.1 spelled.symm).1 stands.ne_nil

/-- The first token of a text is the next one if it stands on the line after a text with nothing left,
where at least definitions are expected. -/
theorem nextToken_joined_of_nil {previous : Option Token} {total' : Nat} (ends : skip text = [])
    (more : Follow.definition ⊆ follow)
    (next : nextToken Follow.definition none total second = .ok (token, rest))
    (closed : token.terminal ≠ .ending → Closed rest) (inside : token.terminal ≠ .ending) :
    nextToken follow previous total' (text ++ '\n' :: second) = .ok (token, rest) := by
  rcases nextToken_eq_ok_iff.1 next with ⟨-, rfl, -⟩ | ⟨mem, spelled, stands, left, -⟩
  · exact absurd rfl inside
  · have skipped : skip (text ++ '\n' :: second) = skip second := skip_joined_of_nil ends
    have wider : token.terminal.Before follow token.text rest := by
      simp only [Follow.definition, List.mem_map] at mem
      obtain ⟨word, -, same⟩ := mem
      rw [← same] at stands ⊢
      exact ⟨stands.1, fun _ => closed inside⟩
    refine nextToken_eq_ok_iff.2 (.inr ⟨more mem, ?_, wider, ?_, ?_⟩)
    · rw [skipped, spelled]
    · rw [skipped, left]
    · rw [hasGap_joined_of_nil ends]
      exact fun none => by cases none

end Tokens

namespace TokenReader

variable (second) in
/-- The second reader reads the same as the first, if more follows on the next line and the first one
does not reach the end of its text. Its values are changed as places are. -/
def Follows {α β : Type} (change : α → β) (reader : TokenReader α) (reader' : TokenReader β) : Prop :=
  ∀ ⦃before value after⦄, Gives reader before value after → before.Sound →
    after.Sound ∧ (after.token.terminal ≠ .ending → before.token.terminal ≠ .ending ∧
      Gives reader' (before.joined second) (change value) (after.joined second))

section Follows

variable {α β γ δ : Type} {change : α → β} {change' : γ → δ} {follow : Expected}
  {terminal : Terminal}

/-- A value is given without reading. -/
theorem Follows.pure {value : α} : Follows second change (Pure.pure value) (Pure.pure (change value)) := by
  intro before given after gives sound
  obtain ⟨rfl, rfl⟩ := gives_pure.1 gives
  exact ⟨sound, fun inside => ⟨inside, gives_pure.2 ⟨rfl, rfl⟩⟩⟩

/-- Readers in a row read the same if their parts do. -/
theorem Follows.bind {first : TokenReader α} {first' : TokenReader β} {next : α → TokenReader γ}
    {next' : β → TokenReader δ} (opening : Follows second change first first')
    (closing : ∀ value, Follows second change' (next value) (next' (change value))) :
    Follows second change' (first >>= next) (first' >>= next') := by
  intro before given after gives sound
  obtain ⟨middle, ahead, gives, gives'⟩ := gives_bind.1 gives
  obtain ⟨soundAhead, opens⟩ := opening gives sound
  obtain ⟨soundAfter, closes⟩ := closing middle gives' soundAhead
  refine ⟨soundAfter, fun inside => ?_⟩
  obtain ⟨between, closes⟩ := closes inside
  obtain ⟨start, opens⟩ := opens between
  exact ⟨start, gives_bind.2 ⟨_, _, opens, closes⟩⟩

/-- What is read may be wrapped, if that agrees with moving places. -/
theorem Follows.map {reader : TokenReader α} {reader' : TokenReader β} {wrap : α → γ}
    {wrap' : β → δ} (follows : Follows second change reader reader')
    (same : ∀ value, wrap' (change value) = change' (wrap value)) :
    Follows second change' (wrap <$> reader) (wrap' <$> reader') := by
  intro before given after gives sound
  obtain ⟨found, inner, rfl⟩ := gives_map.1 gives
  obtain ⟨soundAfter, goes⟩ := follows inner sound
  refine ⟨soundAfter, fun inside => ?_⟩
  obtain ⟨start, goes⟩ := goes inside
  exact ⟨start, gives_map.2 ⟨_, goes, (same found).symm⟩⟩

/-- The kind of the token ahead is the same. -/
theorem follows_next : Follows second id next next := by
  intro before given after gives sound
  obtain ⟨rfl, rfl⟩ := gives_next.1 gives
  exact ⟨sound, fun inside => ⟨inside, gives_next.2 ⟨rfl, rfl⟩⟩⟩

/-- The place is moved by the characters that are added. -/
theorem follows_place : Follows second (· + (second.length + 1)) place place := by
  intro before given after gives sound
  obtain ⟨rfl, rfl⟩ := gives_place.1 gives
  exact ⟨sound, fun inside => ⟨inside, gives_place.2 ⟨rfl, rfl⟩⟩⟩

/-- What is rejected reads nothing. -/
theorem follows_reject {reader' : TokenReader β} : Follows second change reject reader' :=
  fun _ _ _ gives => absurd gives not_gives_reject

/-- What is not admitted is reported alike. -/
theorem follows_report {reason : Invalid} : Follows second id (report reason) (report reason) := by
  intro before given after gives sound
  obtain rfl := gives_report.1 gives
  exact ⟨sound, fun inside => ⟨inside, gives_report.2 rfl⟩⟩

/-- Going on to the next token reads the same. -/
theorem follows_advance : Follows second id (advance follow) (advance follow) := by
  intro before text after gives sound
  obtain ⟨rfl, invalid, next⟩ := gives_advance.1 gives
  refine ⟨sound_of_nextToken next, fun inside => ⟨fun ending => inside ?_, ?_⟩⟩
  · rw [sound ending] at next
    exact (ending_of_nextToken next).2 rfl
  · exact gives_advance.2 ⟨rfl, invalid, nextToken_joined next inside⟩

/-- A given token is taken alike. -/
theorem follows_take : Follows second id (take terminal follow) (take terminal follow) := by
  refine follows_next.bind fun found => ?_
  simp only [id]
  split
  · exact follows_advance
  · exact follows_reject

/-- Whether a given token is taken is the same. -/
theorem follows_takes : Follows second id (takes terminal follow) (takes terminal follow) := by
  refine follows_next.bind fun found => ?_
  simp only [id]
  split
  · exact follows_advance.bind fun _ => .pure
  · exact .pure

/-- A list separator is taken alike. -/
theorem follows_takeSeparator : Follows second id takeSeparator takeSeparator := by
  refine follows_next.bind fun found => ?_
  simp only [id]
  split
  · exact follows_advance.bind fun _ => .pure
  · exact .pure

/-- A name is read alike. -/
theorem follows_name : Follows second id (name follow) (name follow) :=
  follows_take.bind fun _ => .pure

/-- A literal is read alike. -/
theorem follows_literal : Follows second id (literal follow) (literal follow) :=
  follows_take.bind fun _ => .pure

/-- The text of an integer is converted alike. -/
theorem follows_int64 {text : List Char} : Follows second id (int64 text) (int64 text) := by
  simp only [int64]
  split
  · exact .pure
  · exact follows_report.bind fun _ => .pure

variable {item : TokenReader α} {item' : TokenReader β}

/-- Items are read alike in as many rounds or more. -/
theorem follows_itemsWithin (follows : Follows second change item item') {count count' : Nat}
    (more : count ≤ count') :
    Follows second (List.map change) (itemsWithin terminal item count)
      (itemsWithin terminal item' count') := by
  induction count generalizing count' with
  | zero => exact follows_reject
  | succ count ih =>
    obtain ⟨count', rfl⟩ := Nat.exists_eq_add_of_le' (Nat.one_le_of_lt more)
    refine follows_next.bind fun found => ?_
    simp only [id]
    split
    · exact .pure
    · exact follows.bind fun _ => (ih (by omega)).bind fun _ => .pure

/-- What is read in dependence on how much is left. -/
theorem follows_left (reader : Nat → TokenReader α) (reader' : Nat → TokenReader β)
    (follows : ∀ {left left'}, left ≤ left' → Follows second change (reader left) (reader' left')) :
    Follows second change (get >>= fun ahead => reader ahead.rest.length)
      (get >>= fun ahead => reader' ahead.rest.length) := by
  intro before value after gives sound
  rw [gives_get_bind] at gives
  have longer : before.rest.length ≤ (before.joined second).rest.length := by
    simp [Ahead.joined]
  obtain ⟨soundAfter, goes⟩ := follows longer gives sound
  exact ⟨soundAfter, fun inside => ⟨(goes inside).1, gives_get_bind.2 (goes inside).2⟩⟩

/-- Items are read alike. -/
theorem follows_items (follows : Follows second change item item') :
    Follows second (List.map change) (items terminal item) (items terminal item') :=
  follows_left (fun left => itemsWithin terminal item (left + 2))
    (fun left => itemsWithin terminal item' (left + 2))
    fun longer => follows_itemsWithin follows (by omega)

end Follows

section Grammar

variable {follow : Expected} {closing : Terminal}

section Inner

variable {value value' : TokenReader ConstValue} (follows : Follows second id value value')
include follows

/-- An element of a list is read alike. -/
theorem follows_element : Follows second id (do let value ← value; takeSeparator; return value)
    (do let value ← value'; takeSeparator; return value) :=
  follows.bind fun _ => follows_takeSeparator.bind fun _ => .pure

/-- An entry of a map is read alike. -/
theorem follows_entry :
    Follows second id
      (do
        let key ← value
        let _ ← take (.mark .colon) Follow.constant
        let value ← value
        takeSeparator
        return (key, value))
      (do
        let key ← value'
        let _ ← take (.mark .colon) Follow.constant
        let value ← value'
        takeSeparator
        return (key, value)) :=
  follows.bind fun _ => follows_take.bind fun _ => follows.bind fun _ =>
    follows_takeSeparator.bind fun _ => .pure

/-- A list is read alike behind its bracket. -/
theorem follows_listRest : Follows second id (listRest value) (listRest value') := by
  refine (follows_items (follows_element follows)).bind fun values => ?_
  rw [List.map_id]
  exact follows_advance.bind fun _ => .pure

/-- A map is read alike behind its bracket. -/
theorem follows_mapRest : Follows second id (mapRest value) (mapRest value') := by
  refine (follows_items (follows_entry follows)).bind fun entries => ?_
  rw [List.map_id]
  exact follows_advance.bind fun _ => .pure

end Inner

/-- A constant is read alike if what is inside is. -/
theorem follows_constantOf {inner inner' : TokenReader ConstValue}
    (follows : Follows second id inner inner') :
    Follows second id (constantOf inner) (constantOf inner') := by
  refine follows_next.bind fun terminal => ?_
  simp only [id]
  split
  · exact follows_advance.bind fun _ => .pure
  · exact follows_advance.bind fun _ => .pure
  · exact follows_advance.bind fun _ => .pure
  · exact follows_advance.bind fun _ => follows_int64.bind fun _ => .pure
  · exact follows_advance.bind fun _ => follows_listRest follows
  · exact follows_advance.bind fun _ => follows_mapRest follows
  · exact follows_reject

/-- A constant is read alike with as many levels or more. -/
theorem follows_constantWithin {levels levels' : Nat} (more : levels ≤ levels') :
    Follows second id (constantWithin levels) (constantWithin levels') := by
  induction levels generalizing levels' with
  | zero => exact follows_reject
  | succ levels ih =>
    obtain ⟨levels', rfl⟩ := Nat.exists_eq_add_of_le' (Nat.one_le_of_lt more)
    exact follows_constantOf (ih (by omega))

/-- A constant is read alike. -/
theorem follows_constant : Follows second id constant constant :=
  follows_left (fun left => constantWithin (left + 1))
    (fun left => constantWithin (left + 1))
    fun longer => follows_constantWithin (by omega)

/-- A type of another language is read alike, or its absence. -/
theorem follows_leadingCppType : Follows second id leadingCppType leadingCppType := by
  refine follows_takes.bind fun found => ?_
  simp only [id]
  split
  · exact follows_take.bind fun _ => .pure
  · exact .pure

/-- A type is read alike if what is inside is. -/
theorem follows_typeOf {named : Bool} {inner inner' : TokenReader FieldType}
    (follows : Follows second id inner inner') :
    Follows second id (typeOf named inner) (typeOf named inner') := by
  refine follows_next.bind fun terminal => ?_
  simp only [id]
  split
  · exact follows_advance.bind fun _ => .pure
  · exact follows_advance.bind fun _ => follows_leadingCppType.bind fun _ =>
      follows_take.bind fun _ => follows.bind fun _ => follows_take.bind fun _ =>
      follows.bind fun _ => follows_take.bind fun _ => .pure
  · exact follows_advance.bind fun _ => follows_leadingCppType.bind fun _ =>
      follows_take.bind fun _ => follows.bind fun _ => follows_take.bind fun _ => .pure
  · exact follows_advance.bind fun _ => follows_take.bind fun _ => follows.bind fun _ =>
      follows_take.bind fun _ => follows_leadingCppType.bind fun _ => .pure
  · split
    · exact follows_advance.bind fun _ => .pure
    · exact follows_reject
  · exact follows_reject

/-- A type is read alike with as many levels or more. -/
theorem follows_typeWithin {levels levels' : Nat} (more : levels ≤ levels') :
    Follows second id (typeWithin levels) (typeWithin levels') := by
  induction levels generalizing levels' with
  | zero => exact follows_reject
  | succ levels ih =>
    obtain ⟨levels', rfl⟩ := Nat.exists_eq_add_of_le' (Nat.one_le_of_lt more)
    exact follows_typeOf (ih (by omega))

/-- A type is read alike. -/
theorem follows_type : Follows second id type type :=
  follows_left (fun left => typeWithin (left + 1))
    (fun left => typeWithin (left + 1))
    fun longer => follows_typeWithin (by omega)

/-- A type that may get a second name is read alike. -/
theorem follows_definitionType : Follows second id definitionType definitionType :=
  follows_left (fun left => typeOf false (typeWithin (left + 1)))
    (fun left => typeOf false (typeWithin (left + 1)))
    fun longer => follows_typeOf (follows_typeWithin (by omega))

/-- The number of a field is read alike, or its absence. -/
theorem follows_fieldId : Follows second id fieldId fieldId := by
  refine follows_next.bind fun found => ?_
  simp only [id]
  split
  · exact follows_advance.bind fun _ => follows_take.bind fun _ => .pure
  · exact .pure

/-- The word that says whether a field must be set is read alike, or its absence. -/
theorem follows_requiredness : Follows second id requiredness requiredness := by
  refine follows_takes.bind fun found => ?_
  simp only [id]
  split
  · exact .pure
  · refine follows_takes.bind fun found => ?_
    simp only [id]
    split <;> exact .pure

/-- A default value is read alike, or its absence. -/
theorem follows_defaultValue : Follows second id defaultValue defaultValue := by
  refine follows_takes.bind fun found => ?_
  simp only [id]
  split
  · exact follows_constant.bind fun _ => .pure
  · exact .pure

/-- The text of an integer is converted alike if there is one. -/
theorem follows_optionalInt64 {text : Option (List Char)} :
    Follows second id (text.mapM int64) (text.mapM int64) := by
  cases text with
  | none => exact .pure
  | some text => exact follows_int64.map fun _ => rfl

/-- A field is read alike. -/
theorem follows_field : Follows second (Field.map (· + (second.length + 1))) field field :=
  follows_place.bind fun _ => follows_fieldId.bind fun _ => follows_requiredness.bind fun _ =>
    follows_type.bind fun _ => follows_name.bind fun _ => follows_defaultValue.bind fun _ =>
    follows_takeSeparator.bind fun _ => follows_optionalInt64.bind fun _ => .pure

/-- Fields between brackets are read alike. -/
theorem follows_fieldList : Follows second (List.map (Field.map (· + (second.length + 1))))
    (fieldList follow) (fieldList follow) :=
  follows_take.bind fun _ => (follows_items follows_field).bind fun _ =>
    follows_advance.bind fun _ => .pure

/-- The type of a result is read alike. -/
theorem follows_functionType : Follows second id functionType functionType := by
  refine follows_takes.bind fun found => ?_
  simp only [id]
  split
  · exact .pure
  · exact follows_type.bind fun _ => .pure

/-- A function is read alike. -/
theorem follows_function :
    Follows second (FunctionDecl.map (· + (second.length + 1))) function function := by
  refine follows_place.bind fun _ => follows_takes.bind fun _ => follows_functionType.bind fun _ =>
    follows_name.bind fun _ => follows_fieldList.bind fun _ => follows_takes.bind fun found => ?_
  simp only [id]
  split
  · have throwing : Follows second (Option.map (List.map (Field.map (· + (second.length + 1)))))
        (some <$> fieldList Follow.afterThrows) (some <$> fieldList Follow.afterThrows) :=
      follows_fieldList.map fun _ => rfl
    exact throwing.bind fun _ => follows_takeSeparator.bind fun _ => .pure
  · have nothing : Follows second (Option.map (List.map (Field.map (· + (second.length + 1)))))
        (pure none) (pure none) := .pure
    exact nothing.bind fun _ => follows_takeSeparator.bind fun _ => .pure

/-- The scope of a namespace is read alike. -/
theorem follows_namespaceScope : Follows second id namespaceScope namespaceScope := by
  refine follows_takes.bind fun found => ?_
  simp only [id]
  split
  · exact .pure
  · refine follows_name.bind fun scope => ?_
    simp only [id]
    split
    · exact .pure
    · exact follows_report.bind fun _ => .pure

/-- A value of an enumeration is read alike. -/
theorem follows_enumValue :
    Follows second (EnumValue.map (· + (second.length + 1))) enumValue enumValue := by
  refine follows_place.bind fun _ => follows_name.bind fun _ => follows_takes.bind fun found => ?_
  simp only [id]
  split
  · have numbered : Follows second id (some <$> (take .integer Follow.afterEnumNumber >>= int64))
        (some <$> (take .integer Follow.afterEnumNumber >>= int64)) :=
      (follows_take.bind fun _ => follows_int64).map fun _ => rfl
    exact numbered.bind fun _ => follows_takeSeparator.bind fun _ => .pure
  · have nothing : Follows second id (pure none : TokenReader (Option Int)) (pure none) := .pure
    exact nothing.bind fun _ => follows_takeSeparator.bind fun _ => .pure

/-- A body is read alike if its items are. -/
theorem follows_body {α : Type} {change : α → α} {start : Expected} {item : TokenReader α}
    (follows : Follows second change item item) :
    Follows second (List.map change) (body start item) (body start item) :=
  follows_take.bind fun _ => (follows_items follows).bind fun _ => follows_advance.bind fun _ => .pure

/-- A record is read alike behind its keyword. -/
theorem follows_recordRest {place : Nat} :
    Follows second (Record.map (· + (second.length + 1))) (recordRest place)
      (recordRest (place + (second.length + 1))) :=
  follows_advance.bind fun _ => follows_name.bind fun _ => (follows_body follows_field).bind fun _ =>
    .pure

/-- A service is read alike behind its keyword. -/
theorem follows_serviceRest {place : Nat} :
    Follows second (Service.map (· + (second.length + 1))) (serviceRest place)
      (serviceRest (place + (second.length + 1))) := by
  refine follows_advance.bind fun _ => follows_name.bind fun _ => follows_takes.bind fun found => ?_
  simp only [id]
  split
  · have based : Follows second id (some <$> name [.mark .leftBrace])
        (some <$> name [.mark .leftBrace]) := follows_name.map fun _ => rfl
    exact based.bind fun _ => (follows_body follows_function).bind fun _ => .pure
  · have nothing : Follows second id (pure none : TokenReader (Option String)) (pure none) := .pure
    exact nothing.bind fun _ => (follows_body follows_function).bind fun _ => .pure

/-- A definition is read alike. -/
theorem follows_definition :
    Follows second (Definition.map (· + (second.length + 1))) definition definition := by
  refine follows_place.bind fun _ => follows_next.bind fun terminal => ?_
  simp only [id]
  split
  · exact follows_advance.bind fun _ => follows_literal.bind fun _ => .pure
  · exact follows_advance.bind fun _ => follows_literal.bind fun _ => .pure
  · exact follows_advance.bind fun _ => follows_namespaceScope.bind fun _ =>
      follows_name.bind fun _ => .pure
  · exact follows_advance.bind fun _ => follows_definitionType.bind fun _ =>
      follows_name.bind fun _ => follows_takeSeparator.bind fun _ => .pure
  · exact follows_advance.bind fun _ => follows_type.bind fun _ => follows_name.bind fun _ =>
      follows_take.bind fun _ => follows_constant.bind fun _ =>
      follows_takeSeparator.bind fun _ => .pure
  · exact follows_advance.bind fun _ => follows_name.bind fun _ =>
      (follows_body follows_enumValue).bind fun _ => .pure
  · exact follows_recordRest.bind fun _ => .pure
  · exact follows_recordRest.bind fun _ => .pure
  · exact follows_recordRest.bind fun _ => .pure
  · exact follows_serviceRest.bind fun _ => .pure
  · exact follows_reject

end Grammar

end TokenReader

end ThriftIdl
