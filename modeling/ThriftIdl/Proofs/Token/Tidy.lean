import ThriftIdl.Proofs.Text.OneLine
import ThriftIdl.Proofs.Token.Lexer
import ThriftIdl.Proofs.Token.Results
import ThriftIdl.Token.Source

/-!
# Refusals in one line

What is said of a text that is refused over tokens has one line (`Refusal.oneLine_message`): tokens are
shown between quotes, a character that begins no token is no blank, and only the texts of names and
integers are told as they stand. A reader of tokens is tidy if it keeps to that (`TokenReader.Tidy`). There
is one lemma for each way in which such readers are put together, and one for each production.
-/
namespace ThriftIdl

open Text

/-! ### What is said -/

/-- What is said of a meaning that is not admitted has one line. -/
def Invalid.Plain : Invalid → Prop
  | .tooDeep production => OneLine production
  | .integerTooLarge text => '\n' ∉ text
  | .tooManyDigits _ => True
  | .unknownScope name => OneLine name

/-- What is said of a text that is rejected has one line. -/
def Rejection.Plain : Rejection → Prop
  | .unexpected _ => True
  | .noTerminal char _ => char ≠ '\n'
  | .invalid reason => reason.Plain

/-- What is said of a meaning that is not admitted has one line. -/
theorem Invalid.Plain.oneLine_message {reason : Invalid} (plain : reason.Plain) (limit : Int) :
    OneLine (reason.message limit) := by
  cases reason with
  | tooDeep production => exact @Reason.Plain.oneLine_message (.tooDeep production) plain limit
  | integerTooLarge text => exact @Reason.Plain.oneLine_message (.integerTooLarge text) plain limit
  | tooManyDigits count => exact oneLine_digitsMessage count
  | unknownScope name => exact oneLine_append.2 ⟨by decide, plain⟩

/-- A keyword is shown in one line. -/
theorem Keyword.oneLine_title (word : Keyword) : OneLine (Terminal.keyword word).title := by
  cases word with
  | base type => cases type <;> decide
  | _ => decide

/-- A terminal is shown in one line. -/
theorem Terminal.oneLine_title (terminal : Terminal) : OneLine terminal.title := by
  cases terminal with
  | keyword word => exact word.oneLine_title
  | mark symbol => cases symbol <;> decide
  | _ => decide

/-- What is said of a rejected text has one line. -/
theorem Rejection.Plain.oneLine_message {rejection : Rejection} (plain : rejection.Plain)
    (source : List Char) (limit : Int) :
    OneLine (Refusal.ofRejection source limit rejection).message := by
  have number (n : Int) : OneLine (String.ofList (Text.integer n)) :=
    oneLine_ofList.2 (isInteger_integer n).oneLine
  cases rejection with
  | unexpected token =>
    simp only [Refusal.ofRejection, Refusal.message, oneLine_append]
    exact ⟨⟨⟨⟨⟨⟨⟨⟨by decide, token.terminal.oneLine_title⟩, by decide⟩, oneLine_shown _⟩, by decide⟩,
      number _⟩, by decide⟩, number _⟩, by decide⟩
  | noTerminal char left =>
    have character : OneLine (String.singleton char) := by simpa [OneLine] using Ne.symm plain
    simp only [Refusal.ofRejection, Refusal.message, oneLine_append]
    exact ⟨⟨⟨⟨⟨by decide, character⟩, by decide⟩, number _⟩, by decide⟩, number _⟩
  | invalid reason => exact Invalid.Plain.oneLine_message plain limit

/-! ### The token ahead -/

/-- The terminals of tokens whose texts are told as they stand. -/
def Terminal.told : List Terminal := [.identifier, .integer]

/-- The text of the token ahead has one line if it may be told as it stands, and so has what is wrong with
the meaning of the text before. -/
structure Ahead.Plain (ahead : Ahead) : Prop where
  /-- The token. -/
  token : ahead.token.terminal ∈ Terminal.told → '\n' ∉ ahead.token.text
  /-- The meaning. -/
  invalid : ∀ reason ∈ ahead.invalid, reason.Plain

/-- A name is written in one line. -/
theorem IsName.oneLine {name : List Char} (isName : IsName name) : '\n' ∉ name := fun mem =>
  absurd (isName.continued _ mem) (by decide)

section Tokens

variable {expected : Expected} {previous : Option Token} {total : Nat} {text : List Char}

/-- The text of the next token has one line if it may be told as it stands. -/
theorem line_end_not_mem_of_nextToken {token : Token} {rest : List Char}
    (next : nextToken expected previous total text = .ok (token, rest))
    (told : token.terminal ∈ Terminal.told) : '\n' ∉ token.text := by
  rcases nextToken_eq_ok_iff.1 next with ⟨-, rfl, -⟩ | ⟨-, -, before, -⟩
  · exact List.not_mem_nil
  · simp only [Terminal.told, List.mem_cons, List.not_mem_nil, or_false] at told
    rcases told with same | same <;> rw [same] at before
    · exact before.1.oneLine
    · exact before.1.oneLine

/-- Where there is no next token the rejection has one line, because blanks are skipped before. -/
theorem plain_of_nextToken {rejection : Rejection}
    (failed : nextToken expected previous total text = .error rejection) : rejection.Plain := by
  have stops := afterSeparator?_skip text
  simp only [nextToken] at failed
  generalize skip text = start at failed stops
  cases start with
  | nil => cases failed
  | cons c tail =>
    have other : c ≠ '\n' := by
      rintro rfl
      cases stops
    dsimp only at failed
    split at failed
    · split at failed
      · exact Except.error.inj failed ▸ trivial
      · cases failed
    · split at failed
      · exact Except.error.inj failed ▸ trivial
      · exact Except.error.inj failed ▸ other

end Tokens

/-! ### Tidy readers -/

namespace TokenReader

section Laws

variable {α β : Type} {holds : α → Prop} {holds' : β → Prop} {ahead : Ahead} {follow : Expected}
  {terminal : Terminal}

/-- A reader keeps to one line at a token ahead, with a value of which something holds. -/
def TidyAt (holds : α → Prop) (reader : TokenReader α) (ahead : Ahead) : Prop :=
  match reader ahead with
  | .ok (value, after) => after.Plain ∧ holds value
  | .error rejection => rejection.Plain

/-- A reader keeps to one line wherever that holds before, with a value of which something holds. -/
def TidyAs (holds : α → Prop) (reader : TokenReader α) : Prop :=
  ∀ ⦃ahead : Ahead⦄, ahead.Plain → TidyAt holds reader ahead

/-- A reader keeps to one line wherever that holds before. -/
abbrev Tidy (reader : TokenReader α) : Prop := TidyAs (fun _ => True) reader

/-- A value is given without a word. -/
theorem tidyAs_pure {value : α} (here : holds value) : TidyAs holds (pure value) := fun _ plain =>
  ⟨plain, here⟩

/-- Any value is given without a word. -/
theorem tidy_pure {value : α} : Tidy (pure value) := tidyAs_pure trivial

/-- Readers in a row keep to one line at a token, with what holds of the first value. -/
theorem TidyAt.bind {first : TokenReader α} {next : α → TokenReader β}
    (opening : TidyAt holds first ahead) (closing : ∀ value, holds value → TidyAs holds' (next value)) :
    TidyAt holds' (first >>= next) ahead := by
  show match (first ahead >>= fun found => next found.1 found.2) with
    | .ok (value, after) => after.Plain ∧ holds' value
    | .error rejection => rejection.Plain
  unfold TidyAt at opening
  cases tried : first ahead with
  | error rejection =>
    rw [tried] at opening
    exact opening
  | ok found =>
    rw [tried] at opening
    exact closing found.1 opening.2 opening.1

/-- Readers in a row keep to one line, with what holds of the first value. -/
theorem TidyAs.bind {first : TokenReader α} {next : α → TokenReader β} (opening : TidyAs holds first)
    (closing : ∀ value, holds value → TidyAs holds' (next value)) : TidyAs holds' (first >>= next) :=
  fun _ plain => (opening plain).bind closing

/-- After a tidy reader nothing needs to be known of its value. -/
theorem Tidy.then {first : TokenReader α} {next : α → TokenReader β} (opening : Tidy first)
    (closing : ∀ value, TidyAs holds' (next value)) : TidyAs holds' (first >>= next) :=
  opening.bind fun value _ => closing value

/-- What is read may be wrapped. -/
theorem Tidy.map {reader : TokenReader α} {wrap : α → β} (tidy : Tidy reader) :
    Tidy (wrap <$> reader) := by
  rw [map_eq_pure_bind]
  exact tidy.then fun _ => tidy_pure

/-- Less may be said of the value. -/
theorem TidyAt.mono {holds' : α → Prop} {reader : TokenReader α} (tidy : TidyAt holds reader ahead)
    (more : ∀ value, holds value → holds' value) : TidyAt holds' reader ahead := by
  unfold TidyAt at tidy ⊢
  generalize reader ahead = outcome at tidy ⊢
  cases outcome with
  | ok found => exact ⟨tidy.1, more _ tidy.2⟩
  | error => exact tidy

/-- A reader may depend on the token ahead. -/
theorem tidyAs_next_bind {next' : Terminal → TokenReader β}
    (each : ∀ ahead : Ahead, ahead.Plain → TidyAt holds' (next' ahead.token.terminal) ahead) :
    TidyAs holds' (next >>= next') := fun ahead plain => each ahead plain

/-- Asking for the place keeps to one line. -/
theorem tidy_place : Tidy place := fun _ plain => ⟨plain, trivial⟩

/-- Rejecting the token ahead keeps to one line, since it is quoted. -/
theorem tidyAs_reject : TidyAs holds (reject : TokenReader α) := fun _ _ => trivial

/-- A report of a plain reason keeps to one line. -/
theorem tidy_report {reason : Invalid} (plain : reason.Plain) : Tidy (report reason) := by
  intro ahead before
  refine ⟨⟨before.token, fun reason' mem => ?_⟩, trivial⟩
  rcases Option.or_eq_some_iff.1 mem with mem | ⟨-, mem⟩
  · exact before.invalid _ mem
  · exact Option.some.inj mem ▸ plain

/-- The text of a token that is taken has one line if it may be told as it stands. -/
theorem tidyAt_advance (plain : ahead.Plain) :
    TidyAt (fun text => ahead.token.terminal ∈ Terminal.told → '\n' ∉ text) (advance follow) ahead := by
  unfold TidyAt
  rw [advance_apply]
  cases found : nextToken follow (some ahead.token) 0 ahead.rest with
  | error rejection => exact plain_of_nextToken found
  | ok found' => exact ⟨⟨line_end_not_mem_of_nextToken found, plain.invalid⟩, plain.token⟩

/-- Going on to the next token keeps to one line. -/
theorem tidy_advance : Tidy (advance follow) := fun _ plain =>
  (tidyAt_advance plain).mono fun _ _ => trivial

/-- A given token that is taken has one line if it may be told as it stands. -/
theorem tidyAs_take :
    TidyAs (fun text => terminal ∈ Terminal.told → '\n' ∉ text) (take terminal follow) := by
  refine tidyAs_next_bind fun ahead plain => ?_
  split
  next same => exact same ▸ tidyAt_advance plain
  next => exact tidyAs_reject plain

/-- Taking a given token keeps to one line. -/
theorem tidy_take : Tidy (take terminal follow) := fun _ plain =>
  (tidyAs_take plain).mono fun _ _ => trivial

/-- Asking for a given token keeps to one line. -/
theorem tidy_takes : Tidy (takes terminal follow) := by
  refine tidyAs_next_bind fun ahead plain => ?_
  split
  · exact (tidy_advance.then fun _ => tidy_pure) plain
  · exact tidy_pure plain

/-- A list separator is read in one line. -/
theorem tidy_takeSeparator : Tidy takeSeparator := by
  refine tidyAs_next_bind fun ahead plain => ?_
  split
  · exact (tidy_advance.then fun _ => tidy_pure) plain
  · exact tidy_pure plain

/-- A name has one line. -/
theorem tidyAs_name : TidyAs OneLine (name follow) :=
  tidyAs_take.bind fun _ told => tidyAs_pure (oneLine_ofList.2 (told (by decide)))

/-- A name is read in one line. -/
theorem tidy_name : Tidy (name follow) := tidy_take.then fun _ => tidy_pure

/-- A literal is read in one line, since it is not told. -/
theorem tidy_literal : Tidy (literal follow) := tidy_take.then fun _ => tidy_pure

/-- An integer is converted in one line if its text has no line end. -/
theorem tidy_int64 {text : List Char} (told : '\n' ∉ text) : Tidy (int64 text) := by
  simp only [int64]
  split
  · exact tidy_pure
  · refine (tidy_report ?_).then fun _ => tidy_pure
    rw [integerFault]
    split
    · exact told
    · trivial

variable {item : TokenReader α}

/-- Items are read in one line if each of them is. -/
theorem tidy_itemsWithin (tidy : Tidy item) (count : Nat) : Tidy (itemsWithin terminal item count) := by
  induction count with
  | zero => exact tidyAs_reject
  | succ count ih =>
    refine tidyAs_next_bind fun ahead plain => ?_
    split
    · exact tidy_pure plain
    · exact (tidy.then fun _ => ih.then fun _ => tidy_pure) plain

/-- What is read in dependence on how much is left. -/
theorem tidy_left {reader : Nat → TokenReader α} (tidy : ∀ left, Tidy (reader left)) :
    Tidy (get >>= fun ahead => reader ahead.rest.length) := fun ahead plain =>
  tidy ahead.rest.length plain

/-- All items are read in one line if each of them is. -/
theorem tidy_items (tidy : Tidy item) : Tidy (items terminal item) :=
  @tidy_left _ (fun left => itemsWithin terminal item (left + 2)) fun left =>
    tidy_itemsWithin tidy (left + 2)

end Laws

/-! ### Productions -/

section Grammar

variable {follow : Expected}

/-- A constant is read in one line if what is inside is. -/
theorem tidy_constantOf {inner : TokenReader ConstValue} (tidy : Tidy inner) :
    Tidy (constantOf inner) := by
  have list : Tidy (listRest inner) :=
    (tidy_items (tidy.then fun _ => tidy_takeSeparator.then fun _ => tidy_pure)).then fun _ =>
      tidy_advance.then fun _ => tidy_pure
  have entry : Tidy (do
      let key ← inner
      let _ ← take (.mark .colon) Follow.constant
      let value ← inner
      takeSeparator
      return (key, value)) :=
    tidy.then fun _ => tidy_take.then fun _ => tidy.then fun _ => tidy_takeSeparator.then fun _ =>
      tidy_pure
  have map : Tidy (mapRest inner) :=
    (tidy_items entry).then fun _ => tidy_advance.then fun _ => tidy_pure
  refine tidyAs_next_bind fun ahead plain => ?_
  split
  · exact (tidy_advance.then fun _ => tidy_pure) plain
  · exact (tidy_advance.then fun _ => tidy_pure) plain
  · exact (tidy_advance.then fun _ => tidy_pure) plain
  next same =>
    refine (tidyAt_advance plain).bind fun text told => ?_
    exact (tidy_int64 (told (by rw [same]; decide))).then fun _ => tidy_pure
  · exact (tidy_advance.then fun _ => list) plain
  · exact (tidy_advance.then fun _ => map) plain
  · exact tidyAs_reject plain

/-- A constant is read in one line. -/
theorem tidy_constant : Tidy constant := by
  have within (levels : Nat) : Tidy (constantWithin levels) := by
    induction levels with
    | zero => exact tidyAs_reject
    | succ levels ih => exact tidy_constantOf ih
  exact @tidy_left _ (fun left => constantWithin (left + 1)) fun left => within (left + 1)

/-- A type of another language is read in one line. -/
theorem tidy_leadingCppType : Tidy leadingCppType := by
  refine tidy_takes.then fun found => ?_
  split
  · exact tidy_take.then fun _ => tidy_pure
  · exact tidy_pure

/-- A type is read in one line if what is inside is. -/
theorem tidy_typeOf {named : Bool} {inner : TokenReader FieldType} (tidy : Tidy inner) :
    Tidy (typeOf named inner) := by
  refine tidyAs_next_bind fun ahead plain => ?_
  split
  · exact (tidy_advance.then fun _ => tidy_pure) plain
  · exact (tidy_advance.then fun _ => tidy_leadingCppType.then fun _ => tidy_take.then fun _ =>
      tidy.then fun _ => tidy_take.then fun _ => tidy.then fun _ => tidy_take.then fun _ =>
      tidy_pure) plain
  · exact (tidy_advance.then fun _ => tidy_leadingCppType.then fun _ => tidy_take.then fun _ =>
      tidy.then fun _ => tidy_take.then fun _ => tidy_pure) plain
  · exact (tidy_advance.then fun _ => tidy_take.then fun _ => tidy.then fun _ =>
      tidy_take.then fun _ => tidy_leadingCppType.then fun _ => tidy_pure) plain
  · split
    · exact (tidy_advance.then fun _ => tidy_pure) plain
    · exact tidyAs_reject plain
  · exact tidyAs_reject plain

/-- A type is read in one line with any levels. -/
theorem tidy_typeWithin (levels : Nat) : Tidy (typeWithin levels) := by
  induction levels with
  | zero => exact tidyAs_reject
  | succ levels ih => exact tidy_typeOf ih

/-- A type is read in one line. -/
theorem tidy_type : Tidy type :=
  @tidy_left _ (fun left => typeWithin (left + 1)) fun left => tidy_typeWithin (left + 1)

/-- A type that may get a second name is read in one line. -/
theorem tidy_definitionType : Tidy definitionType :=
  @tidy_left _ (fun left => typeOf false (typeWithin (left + 1))) fun left =>
    tidy_typeOf (tidy_typeWithin (left + 1))

/-- The number of a field is an integer, which may be told as it stands. -/
theorem tidyAs_fieldId : TidyAs (fun found => ∀ text ∈ found, '\n' ∉ text) fieldId := by
  refine tidyAs_next_bind fun ahead plain => ?_
  split
  next same =>
    refine (tidyAt_advance plain).bind fun text told => tidy_take.then fun _ => tidyAs_pure ?_
    simpa using told (by rw [same]; decide)
  next => exact tidyAs_pure (by simp) plain

/-- The word that says whether a field must be set is read in one line. -/
theorem tidy_requiredness : Tidy requiredness := by
  refine tidy_takes.then fun found => ?_
  split
  · exact tidy_pure
  · refine tidy_takes.then fun found => ?_
    split <;> exact tidy_pure

/-- A default value is read in one line. -/
theorem tidy_defaultValue : Tidy defaultValue := by
  refine tidy_takes.then fun found => ?_
  split
  · exact tidy_constant.then fun _ => tidy_pure
  · exact tidy_pure

/-- A field is read in one line. -/
theorem tidy_field : Tidy field := by
  refine tidy_place.then fun _ => tidyAs_fieldId.bind fun id told => ?_
  have number : Tidy (id.mapM int64) := by
    cases id with
    | none => exact tidy_pure
    | some text => exact (tidy_int64 (told text rfl)).map
  exact tidy_requiredness.then fun _ => tidy_type.then fun _ => tidy_name.then fun _ =>
    tidy_defaultValue.then fun _ => tidy_takeSeparator.then fun _ => number.then fun _ => tidy_pure

/-- Fields between brackets are read in one line. -/
theorem tidy_fieldList : Tidy (fieldList follow) :=
  tidy_take.then fun _ => (tidy_items tidy_field).then fun _ => tidy_advance.then fun _ => tidy_pure

/-- A function is read in one line. -/
theorem tidy_function : Tidy function := by
  have result : Tidy functionType := by
    refine tidy_takes.then fun found => ?_
    split
    · exact tidy_pure
    · exact tidy_type.then fun _ => tidy_pure
  refine tidy_place.then fun _ => tidy_takes.then fun _ => result.then fun _ => tidy_name.then fun _ =>
    tidy_fieldList.then fun _ => tidy_takes.then fun found => ?_
  split
  · exact tidy_fieldList.map.then fun _ => tidy_takeSeparator.then fun _ => tidy_pure
  · exact tidy_pure.then fun _ => tidy_takeSeparator.then fun _ => tidy_pure

/-- The scope of a namespace is read in one line, since a name is all that is told of it. -/
theorem tidy_namespaceScope : Tidy namespaceScope := by
  refine tidy_takes.then fun found => ?_
  split
  · exact tidy_pure
  · refine tidyAs_name.bind fun scope oneLine => ?_
    split
    · exact tidy_pure
    · exact (@tidy_report (.unknownScope scope) oneLine).then fun _ => tidy_pure

/-- A value of an enumeration is read in one line. -/
theorem tidy_enumValue : Tidy enumValue := by
  have number : Tidy (take .integer Follow.afterEnumNumber >>= int64) :=
    tidyAs_take.bind fun _ told => tidy_int64 (told (by decide))
  refine tidy_place.then fun _ => tidy_name.then fun _ => tidy_takes.then fun found => ?_
  split
  · exact number.map.then fun _ => tidy_takeSeparator.then fun _ => tidy_pure
  · exact tidy_pure.then fun _ => tidy_takeSeparator.then fun _ => tidy_pure

/-- A body is read in one line if its items are. -/
theorem tidy_body {α : Type} {start : Expected} {item : TokenReader α} (tidy : Tidy item) :
    Tidy (body start item) :=
  tidy_take.then fun _ => (tidy_items tidy).then fun _ => tidy_advance.then fun _ => tidy_pure

/-- A record is read in one line. -/
theorem tidy_recordRest {place : Nat} : Tidy (recordRest place) :=
  tidy_advance.then fun _ => tidy_name.then fun _ => (tidy_body tidy_field).then fun _ => tidy_pure

/-- A service is read in one line. -/
theorem tidy_serviceRest {place : Nat} : Tidy (serviceRest place) := by
  refine tidy_advance.then fun _ => tidy_name.then fun _ => tidy_takes.then fun found => ?_
  split
  · exact tidy_name.map.then fun _ => (tidy_body tidy_function).then fun _ => tidy_pure
  · exact tidy_pure.then fun _ => (tidy_body tidy_function).then fun _ => tidy_pure

/-- A definition is read in one line. -/
theorem tidy_definition : Tidy definition := by
  refine tidy_place.then fun _ => tidyAs_next_bind fun ahead plain => ?_
  split
  · exact (tidy_advance.then fun _ => tidy_literal.then fun _ => tidy_pure) plain
  · exact (tidy_advance.then fun _ => tidy_literal.then fun _ => tidy_pure) plain
  · exact (tidy_advance.then fun _ => tidy_namespaceScope.then fun _ => tidy_name.then fun _ =>
      tidy_pure) plain
  · exact (tidy_advance.then fun _ => tidy_definitionType.then fun _ => tidy_name.then fun _ =>
      tidy_takeSeparator.then fun _ => tidy_pure) plain
  · exact (tidy_advance.then fun _ => tidy_type.then fun _ => tidy_name.then fun _ =>
      tidy_take.then fun _ => tidy_constant.then fun _ => tidy_takeSeparator.then fun _ =>
      tidy_pure) plain
  · exact (tidy_advance.then fun _ => tidy_name.then fun _ => (tidy_body tidy_enumValue).then fun _ =>
      tidy_pure) plain
  · exact (tidy_recordRest.then fun _ => tidy_pure) plain
  · exact (tidy_recordRest.then fun _ => tidy_pure) plain
  · exact (tidy_recordRest.then fun _ => tidy_pure) plain
  · exact (tidy_serviceRest.then fun _ => tidy_pure) plain
  · exact tidyAs_reject plain

end Grammar

end TokenReader

/-! ### Whole texts -/

section Nesting

variable {limit : Nat}

/-- Productions that may be named, if one is. -/
def OneLineIn (found : Option String) : Prop := ∀ production ∈ found, OneLine production

/-- Where no production is named there is nothing to be said. -/
theorem oneLineIn_none : OneLineIn none := nofun

/-- The one that is named has one line. -/
theorem oneLineIn_some {production : String} (oneLine : OneLine production) :
    OneLineIn (some production) := fun _ mem => Option.some.inj mem ▸ oneLine

/-- The first of two that is named has one line. -/
theorem OneLineIn.or {first second : Option String} (left : OneLineIn first)
    (right : OneLineIn second) : OneLineIn (first.or second) := by
  cases first with
  | none => exact right
  | some => exact left

/-- What is named of a thing that may be missing has one line. -/
theorem OneLineIn.bind {α : Type} {found : Option α} {ask : α → Option String}
    (each : ∀ thing, OneLineIn (ask thing)) : OneLineIn (found.bind ask) := by
  cases found with
  | none => exact oneLineIn_none
  | some thing => exact each thing

/-- What is named of the last of some things has one line. -/
theorem oneLineIn_lastOf {α : Type} {ask : α → Option String} (each : ∀ thing, OneLineIn (ask thing))
    (things : List α) : OneLineIn (lastOf ask things) := by
  intro production mem
  obtain ⟨thing, -, found⟩ := List.exists_of_findSome?_eq_some mem
  exact each thing production found

/-- The production in which a type is too deep has one line. -/
theorem FieldType.oneLineIn_tooDeep? (type : FieldType) : OneLineIn (type.tooDeep? limit) := by
  induction type generalizing limit with
  | base | named => cases limit <;> exact oneLineIn_none
  | map key value keyIH valueIH =>
    cases limit with
    | zero => exact oneLineIn_some (by decide)
    | succ => exact valueIH.or keyIH
  | set element ih | list element ih =>
    cases limit with
    | zero => exact oneLineIn_some (by decide)
    | succ => exact ih

mutual
/-- The production in which a constant is too deep has one line. -/
theorem ConstValue.oneLineIn_tooDeep? (limit : Nat) : ∀ value, OneLineIn (ConstValue.tooDeep? limit value)
  | .list values => by
    rw [ConstValue.tooDeep?]
    split
    · exact oneLineIn_some (by decide)
    · exact oneLineIn_tooDeepValues? (limit - 1) values
  | .map entries => by
    rw [ConstValue.tooDeep?]
    split
    · exact oneLineIn_some (by decide)
    · exact oneLineIn_tooDeepEntries? (limit - 1) entries
  | .name _ | .literal _ | .int _ | .double _ => by
    rw [ConstValue.tooDeep?]
    exact oneLineIn_none

/-- The production in which one of some constants is too deep has one line. -/
theorem oneLineIn_tooDeepValues? (limit : Nat) : ∀ values, OneLineIn (tooDeepValues? limit values)
  | [] => by
    rw [tooDeepValues?]
    exact oneLineIn_none
  | value :: values => by
    rw [tooDeepValues?]
    exact (oneLineIn_tooDeepValues? limit values).or (value.oneLineIn_tooDeep? limit)

/-- The production in which one of some entries is too deep has one line. -/
theorem oneLineIn_tooDeepEntries? (limit : Nat) : ∀ entries, OneLineIn (tooDeepEntries? limit entries)
  | [] => by
    rw [tooDeepEntries?]
    exact oneLineIn_none
  | (key, value) :: entries => by
    rw [tooDeepEntries?]
    exact (oneLineIn_tooDeepEntries? limit entries).or
      ((value.oneLineIn_tooDeep? limit).or (key.oneLineIn_tooDeep? limit))
end

/-- The production in which a field is too deep has one line. -/
theorem Field.oneLineIn_tooDeep? {π : Type} (field : Field π) : OneLineIn (field.tooDeep? limit) :=
  (OneLineIn.bind (ConstValue.oneLineIn_tooDeep? limit)).or field.type.oneLineIn_tooDeep?

/-- The production in which a function is too deep has one line. -/
theorem FunctionDecl.oneLineIn_tooDeep? {π : Type} (function : FunctionDecl π) :
    OneLineIn (function.tooDeep? limit) :=
  (oneLineIn_lastOf Field.oneLineIn_tooDeep? _).or
    ((oneLineIn_lastOf Field.oneLineIn_tooDeep? _).or (OneLineIn.bind FieldType.oneLineIn_tooDeep?))

/-- The production in which a definition is too deep has one line. -/
theorem Definition.oneLineIn_tooDeep? {π : Type} (definition : Definition π) :
    OneLineIn (definition.tooDeep? limit) := by
  cases definition with
  | inclusion | cppInclusion | space | enum => exact oneLineIn_none
  | typedef decl => exact decl.old.oneLineIn_tooDeep?
  | const decl => exact (decl.value.oneLineIn_tooDeep? limit).or decl.type.oneLineIn_tooDeep?
  | record kind decl => exact oneLineIn_lastOf Field.oneLineIn_tooDeep? _
  | service decl => exact oneLineIn_lastOf FunctionDecl.oneLineIn_tooDeep? _

end Nesting

section Source

variable {source : List Char} {limit : Int}

/-- What is wrong with a text that is read or rejected is told in one line. -/
theorem plain_readTokens (source : List Char) :
    match readTokens source with
    | .ok (_, invalid) => ∀ reason ∈ invalid, reason.Plain
    | .error rejection => rejection.Plain := by
  rw [readTokens]
  cases first : nextToken Follow.definition none source.length source with
  | error rejection => exact plain_of_nextToken first
  | ok found =>
    have plain : Ahead.Plain ⟨found.1, found.2, none⟩ :=
      ⟨line_end_not_mem_of_nextToken first, nofun⟩
    have definitions : TokenReader.Tidy TokenReader.definitions :=
      TokenReader.tidy_items TokenReader.tidy_definition
    have tidy := definitions plain
    unfold TokenReader.TidyAt at tidy
    simp only [bind, Except.bind, pure, Except.pure]
    generalize TokenReader.definitions ⟨found.1, found.2, none⟩ = outcome at tidy
    cases outcome with
    | error rejection => exact tidy
    | ok read => exact tidy.1.invalid

/-- A text is rejected over tokens for a plain reason. -/
theorem plain_of_readByTokens {rejection : Rejection}
    (failed : readByTokens limit source = .error rejection) : rejection.Plain := by
  have plain := plain_readTokens source
  rw [readByTokens] at failed
  cases read : readTokens source with
  | error rejection' =>
    rw [read] at failed plain
    exact Except.error.inj failed ▸ plain
  | ok found =>
    obtain ⟨definitions, invalid⟩ := found
    rw [read] at failed plain
    simp only [bind, Except.bind] at failed
    split at failed
    next reason _ nested =>
      obtain ⟨production, deep, rfl⟩ := Option.map_eq_some_iff.1 nested
      exact Except.error.inj failed ▸
        oneLineIn_lastOf Definition.oneLineIn_tooDeep? definitions production deep
    next reason _ => exact Except.error.inj failed ▸ plain reason rfl
    next => cases failed

/-- What is said of a text that is refused over tokens has one line. -/
theorem Refusal.oneLine_message {refusal : Refusal}
    (refused : readGrammatically limit source = .error refusal) : OneLine refusal.message := by
  rw [readGrammatically] at refused
  split at refused
  next => cases refused
  next rejection failed =>
    rw [← Except.error.inj refused]
    exact (plain_of_readByTokens failed).oneLine_message source limit

end Source

end ThriftIdl
