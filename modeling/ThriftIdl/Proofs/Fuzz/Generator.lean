import ThriftIdl.Fuzz.Generator
import ThriftIdl.Proofs.Canonical.Accepted
import ThriftIdl.Proofs.Fuzz.Draw
import ThriftIdl.Proofs.Fuzz.Sketch

/-!
# Random documents are read in both ways

Whatever numbers chance comes from, every part of a random document is formed: names are names, numbers
are numbers of 64 bits, literals are closed, and containers are nested at most four deep
(`yields_document`). So both readers accept a random document in which no name is a keyword, and give
the document that was drawn, so that testing it finds nothing (`document_accepted`).
-/
namespace ThriftIdl.Fuzz

open Draw Text

section Words

/-- The letters that a name may begin with are letters. -/
theorem isLetter_of_mem_letters : ∀ c ∈ letters, isLetter c :=
  List.all_eq_true.1 (by decide)

/-- The characters that a name may go on with do so. -/
theorem continuesName_of_mem_nameChars : ∀ c ∈ nameChars, continuesName c :=
  List.all_eq_true.1 (by decide)

/-- A name is a name. -/
theorem yields_name : Yields name fun name => IsName name.toList := by
  have common : ∀ name ∈ commonNames, IsName name.toList := by decide
  refine .after _ fun _ => .ite (fun _ => yields_oneOf common) fun _ => ?_
  refine .after _ fun size => ?_
  refine (yields_oneOf isLetter_of_mem_letters).bind fun first letter => ?_
  refine (yields_times (yields_oneOf continuesName_of_mem_nameChars) _).bind fun rest continued => ?_
  refine .pure ?_
  rw [String.toList_ofList]
  exact ⟨[], first, rest, rfl, .inl rfl, letter, continued.2⟩

/-- A character of a literal does not close it. -/
theorem ne_quote_of_mem_literalChars : ∀ c ∈ literalChars, c ≠ Quote.double.char := by
  have clear : literalChars.all (· != Quote.double.char) := by decide
  exact fun c mem => bne_iff_ne.1 (List.all_eq_true.1 clear c mem)

/-- A literal is a literal. -/
theorem yields_literal : Yields literal fun literal => IsLiteral literal.toList := by
  have odd : ∀ literal ∈ ["\"\"", "''", "\"test\"", "'it\"s'", "\"a // b\"", "\"/* x */\""],
      matchLiteral? literal.toList = some (literal.toList, []) := by decide
  have odd' := fun literal mem => (matchLiteral?_eq_some_iff.1 (odd literal mem)).2
  refine .after _ fun _ => .ite (fun _ => yields_oneOf odd') fun _ => ?_
  refine .after _ fun size => ?_
  refine (yields_times (yields_oneOf ne_quote_of_mem_literalChars) _).bind fun text clear => ?_
  refine .pure ?_
  rw [String.toList_ofList]
  exact ⟨.double, text, rfl, fun mem => clear.2 _ mem rfl⟩

/-- What stands between elements divides them. -/
theorem yields_separator : Yields separator fun separator => Divider separator.toList := by
  have blank : Filler [' '] := .blank rfl .nil
  have lineEnd : Filler ['\n'] := .blank rfl .nil
  have clear : ¬ ['*', '/'] <:+: [' ', 'c', ' '] := by decide
  have comment : Filler (' ' :: '/' :: '*' :: ([' ', 'c', ' '] ++ '*' :: '/' :: [' '])) :=
    .blank rfl (.block clear blank)
  have comma : ∀ gap, Filler gap → Divider (Mark.comma.char :: gap) := fun _ => .mark (.inl rfl)
  have semicolon : Divider (Mark.semicolon.char :: [' ']) := .mark (.inr rfl) blank
  refine yields_oneOf ?_
  simp only [List.forall_mem_cons, List.not_mem_nil, false_imp_iff, implies_true, and_true]
  exact ⟨comma _ blank, semicolon, .gap blank (by simp), comma _ .nil, .gap lineEnd (by simp),
    .gap comment (by simp)⟩

end Words

section Numbers

/-- An integer has 64 bits. -/
theorem yields_integer : Yields integer fun integer =>
    IsInteger integer.toList ∧ admitsInteger integer.toList := by
  have odd : ∀ integer ∈ ["0", "-0", "+7", "9223372036854775807", "-9223372036854775808"],
      scanInteger? integer.toList = some (integer.toList, []) ∧
        admitsInteger integer.toList := by decide
  have odd' := fun integer mem =>
    And.intro (scanInteger?_eq_some_iff.1 (odd integer mem).1).2.1 (odd integer mem).2
  refine .after _ fun _ => .ite (fun _ => .after _ fun above => .pure ?_) fun _ => yields_oneOf odd'
  rw [String.toList_ofList]
  have bound : above.val ≤ 2000 := above.property
  have least : leastInteger ≤ (above.val : Int) - 1000 := by
    unfold leastInteger
    omega
  have greatest : (above.val : Int) - 1000 ≤ greatestInteger := by
    unfold greatestInteger
    omega
  have fits := Bool.and_eq_true_iff.2 ⟨decide_eq_true least, decide_eq_true greatest⟩
  exact ⟨isInteger_integer _, admitsInteger_integer fits⟩

/-- A text that is scanned as one number with a fraction or an exponent is a double. -/
theorem whole_of_scanNumber {text : List Char} (all : (scanNumber admitsInteger text).2 = [])
    (digits : (scanNumber admitsInteger text).1.hasDigits)
    (fractional : (scanNumber admitsInteger text).1.isIntegral = false) :
    Shape.double.Whole admitsInteger text := by
  obtain ⟨formed, admitted⟩ := wellFormed_scanNumber admitsInteger text
  have parts := scanNumber_text admitsInteger text
  rw [all, List.append_nil] at parts
  exact ⟨_, formed, digits, fractional, admitted, parts.symm⟩

/-- A double with three places is a double. -/
theorem whole_placesText (negative : Bool) (magnitude : Magnitude) :
    Shape.double.Whole admitsInteger (placesText negative magnitude) := by
  simp only [placesText]
  generalize Magnitude.roundQuotient (1000 * magnitude.units) unitsOfOne = thousandths
  let places := digits (thousandths % 1000)
  let number : Number := ⟨if negative then ['-'] else [], digits (thousandths / 1000),
    some (List.replicate (3 - places.length) '0' ++ places), none⟩
  have sign : IsSign number.sign := by
    cases negative with
    | true => exact .inr (.inr rfl)
    | false => exact .inl rfl
  have whole : ∀ c ∈ number.whole, isDigit c := fun _ mem => isDigit_of_mem_digits mem
  have fraction : IsDigits (List.replicate (3 - places.length) '0' ++ places) := by
    refine ⟨by simp [places, digits_ne_nil], List.forall_mem_append.2 ⟨fun c mem => ?_, fun c mem => ?_⟩⟩
    · rw [List.eq_of_mem_replicate mem]
      decide
    · exact isDigit_of_mem_digits mem
  have formed : number.WellFormed :=
    ⟨sign, whole, fun _ mem => Option.some.inj mem ▸ fraction, fun _ none => by cases none⟩
  refine ⟨number, formed, ?_, rfl, fun _ none => (by cases none), ?_⟩
  · simp [number, Number.hasDigits]
  · simp [number, places, Number.text]

/-- A number is a number. -/
theorem yields_number : Yields number fun number => IsNumeral number.toList := by
  have odd : ∀ number ∈ ["0.0", ".5", "-.5", "1e10", "1.5E-3", "+2.0e+2"],
      (scanNumber admitsInteger number.toList).2 = [] ∧
        (scanNumber admitsInteger number.toList).1.hasDigits ∧
          (scanNumber admitsInteger number.toList).1.isIntegral = false := by decide
  have odd' := fun number mem =>
    whole_of_scanNumber (odd number mem).1 (odd number mem).2.1 (odd number mem).2.2
  refine .after _ fun _ => .ite (fun _ => ?_) fun _ => .after _ fun _ => .ite (fun _ => ?_) fun _ => ?_
  · exact yields_integer.imp fun _ => .inl
  · refine .after _ fun share => .pure ?_
    rw [String.toList_ofList]
    exact .inr (whole_placesText _ _)
  · exact (yields_oneOf odd').imp fun _ => .inr

end Numbers

section Nested

/-- A type has names that are names, and no more levels of containers than it was asked for. -/
theorem yields_type (levels : Nat) : Yields (type levels) (FieldType.Formed levels) := by
  have base : ∀ limit, Yields (do return .base (← oneOf BaseType.all)) (FieldType.Formed limit) :=
    fun limit => .after _ fun type => .pure (FieldType.formed_base limit type)
  induction levels with
  | zero => exact .after _ fun _ => base 0
  | succ levels ih =>
    refine .after _ fun share => .ite (fun _ => base _) fun _ => ?_
    refine .ite (fun _ => ?_) fun _ => .ite (fun _ => ?_) fun _ => .ite (fun _ => ?_) fun _ => ?_
    · exact yields_name.bind fun name isName => .pure (FieldType.formed_named _ isName)
    · exact ih.bind fun element formed => .pure formed.list
    · exact ih.bind fun element formed => .pure formed.set
    · exact ih.bind fun key formed => ih.bind fun value formed' => .pure (formed.map formed')

/-- A constant to be written is formed, and its containers are nested within a limit. -/
structure ConstSketch.Within (limit : Nat) (sketch : ConstSketch) : Prop where
  /-- It is formed. -/
  formed : sketch.Formed
  /-- Its containers are nested within the limit. -/
  shallow : sketch.meaning.depth ≤ limit

/-- A number is within any limit. -/
theorem within_number (limit : Nat) {spelling : String} (isNumeral : IsNumeral spelling.toList) :
    (ConstSketch.number spelling).Within limit := by
  refine ⟨.number isNumeral, ?_⟩
  rw [ConstSketch.meaning, numeralMeaning]
  split <;> exact Nat.zero_le _

/-- A list is within one level more than its elements. -/
theorem within_list {limit : Nat} {separator : String} {values : List ConstSketch}
    (divides : Divider separator.toList) (each : ∀ value ∈ values, value.Within limit) :
    (ConstSketch.list separator values).Within (limit + 1) := by
  refine ⟨.list divides fun value mem => (each value mem).formed, ?_⟩
  rw [ConstSketch.meaning, meaningsOfValues_eq]
  refine Nat.succ_le_succ (depthOfValues_le_iff.2 (List.forall_mem_map.2 ?_))
  exact fun value mem => (each value mem).shallow

/-- A map is within one level more than its keys and its values. -/
theorem within_map {limit : Nat} {separator : String} {entries : List (ConstSketch × ConstSketch)}
    (divides : Divider separator.toList)
    (each : ∀ entry ∈ entries, entry.1.Within limit ∧ entry.2.Within limit) :
    (ConstSketch.map separator entries).Within (limit + 1) := by
  refine ⟨.map divides (fun entry mem => (each entry mem).1.formed)
    fun entry mem => (each entry mem).2.formed, ?_⟩
  rw [ConstSketch.meaning, meaningsOfEntries_eq]
  refine Nat.succ_le_succ (depthOfEntries_le_iff.2 (List.forall_mem_map.2 ?_))
  exact fun entry mem => ⟨(each entry mem).1.shallow, (each entry mem).2.shallow⟩

/-- A constant is formed, and has no more levels of containers than it was asked for. -/
theorem yields_constant (levels : Nat) : Yields (constant levels) (ConstSketch.Within levels) := by
  have numbers : ∀ limit, Yields (do return .number (← number)) (ConstSketch.Within limit) :=
    fun limit => yields_number.bind fun _ isNumeral => .pure (within_number limit isNumeral)
  induction levels with
  | zero => exact .after _ fun _ => numbers 0
  | succ levels ih =>
    have pair : Yields (do
        let key ← constant levels
        let value ← constant levels
        return (key, value)) fun entry => entry.1.Within levels ∧ entry.2.Within levels :=
      ih.bind fun _ key => ih.bind fun _ value => .pure ⟨key, value⟩
    refine .after _ fun pick => ?_
    split
    · exact numbers _
    · exact numbers _
    · exact yields_literal.bind fun _ isLiteral => .pure ⟨.literal isLiteral, Nat.zero_le _⟩
    · exact yields_name.bind fun _ isName => .pure ⟨.name isName, Nat.zero_le _⟩
    · exact .after _ fun count => (yields_times ih _).bind fun _ values =>
        yields_separator.bind fun _ divides => .pure (within_list divides values.2)
    · exact .after _ fun count => (yields_times pair _).bind fun _ entries =>
        yields_separator.bind fun _ divides => .pure (within_map divides entries.2)

end Nested

section Members

variable {α : Type} {draw : Draw α} {holds : α → Prop} {limit : Nat}

/-- What is drawn perhaps has what is drawn, if it is. -/
theorem yields_perhaps (perMille : Nat) (each : Yields draw holds) :
    Yields (perhaps perMille draw) fun thing => ∀ one ∈ thing, holds one := by
  refine .after _ fun _ => .ite (fun _ => ?_) fun _ => .pure fun _ none => by cases none
  exact each.bind fun thing has => .pure fun one same => Option.some.inj same ▸ has

/-- Formed elements are formed with the separator that is drawn for them. -/
theorem yields_together {items : List α} (each : ∀ item ∈ items, holds item) :
    Yields (together items) (Joined.Formed · holds) :=
  yields_separator.bind fun _ divides => .pure ⟨divides, each⟩

/-- A field is formed if the number that was decided for it is one. -/
theorem yields_field {id : Option (List Char)} (enough : levels ≤ limit)
    (numbered : ∀ number ∈ id, IsInteger number ∧ admitsInteger number) :
    Yields (field id) (FieldSketch.Formed limit) := by
  refine .after _ fun word => (yields_type levels).bind fun type formed => ?_
  refine yields_name.bind fun name isName => ?_
  refine (yields_perhaps 200 (yields_constant levels)).bind fun value within => .pure ?_
  exact ⟨numbered, formed.mono enough, isName, fun one mem =>
    ⟨(within one mem).formed, (within one mem).shallow.trans enough⟩⟩

/-- Fields are formed as long as their places have 64 bits. -/
theorem yields_fieldsFrom (enough : levels ≤ limit) (place count : Nat)
    (small : ((place + count : Nat) : Int) ≤ greatestInteger) :
    Yields (fieldsFrom place count) fun fields => ∀ field ∈ fields, field.Formed limit := by
  induction count generalizing place with
  | zero => exact .pure fun _ none => by cases none
  | succ count ih =>
    have digits_eq : digits place = Text.integer place := by
      have positive : ¬ (place : Int) < 0 := by omega
      rw [Text.integer, if_neg positive, Int.natAbs_natCast]
    have least : leastInteger ≤ place := by
      unfold leastInteger
      omega
    have fits : fitsInteger place :=
      Bool.and_eq_true_iff.2 ⟨decide_eq_true least, decide_eq_true (by omega)⟩
    have numbered : IsInteger (digits place) ∧ admitsInteger (digits place) := by
      rw [digits_eq]
      exact ⟨isInteger_integer place, admitsInteger_integer fits⟩
    refine .after _ fun decided => ?_
    have first : Yields (field (if decided then some (digits place) else none))
        (FieldSketch.Formed limit) := by
      refine yields_field enough fun number mem => ?_
      cases decided with
      | true => exact Option.some.inj mem ▸ numbered
      | false => cases mem
    refine first.bind fun _ formed => (ih (place + 1) ?_).bind fun _ others => .pure ?_
    · omega
    · exact List.forall_mem_cons.2 ⟨formed, others⟩

/-- Fields are formed. -/
theorem yields_fields (enough : levels ≤ limit) :
    Yields fields (Joined.Formed · (FieldSketch.Formed limit)) := by
  refine .after _ fun count => ?_
  have few : count.val ≤ 4 := count.property
  have small : ((1 + count.val : Nat) : Int) ≤ greatestInteger := by
    unfold greatestInteger
    omega
  exact (yields_fieldsFrom enough 1 count small).bind fun _ each => yields_together each

/-- A function is formed. -/
theorem yields_function (enough : levels ≤ limit) :
    Yields function (FunctionSketch.Formed limit) := by
  refine .after _ fun oneway => .after _ fun void => ?_
  -- Both ways to decide about the result go on in the same way.
  have rest : ∀ returns : Option FieldType, (∀ type ∈ returns, type.Formed limit) →
      Yields (do
        let name ← name
        let parameters ← fields
        let exceptions ← perhaps 200 fields
        return ⟨oneway, returns, name, parameters, exceptions⟩) (FunctionSketch.Formed limit) := by
    intro returns result
    refine yields_name.bind fun _ isName => (yields_fields enough).bind fun _ parameters => ?_
    refine (yields_perhaps 200 (yields_fields enough)).bind fun _ exceptions => .pure ?_
    exact ⟨result, isName, parameters, exceptions⟩
  have some_type : Yields (some <$> type levels) fun returns : Option FieldType =>
      ∀ type ∈ returns, type.Formed limit := by
    refine (yields_type levels).map fun type formed one same => ?_
    exact Option.some.inj same ▸ formed.mono enough
  have no_type : Yields (pure none) fun returns : Option FieldType =>
      ∀ type ∈ returns, type.Formed limit := .pure fun _ none => by cases none
  exact .ite (fun _ => no_type.bind rest) fun _ => some_type.bind rest

/-- A value of an enumeration is formed. -/
theorem yields_enumValue : Yields enumValue EnumValueSketch.Formed :=
  yields_name.bind fun _ isName => (yields_perhaps 500 yields_integer).bind fun _ number =>
    .pure ⟨isName, number⟩

end Members

section Documents

variable {limit : Nat}

/-- A record is formed. -/
theorem yields_record (enough : levels ≤ limit) (kind : RecordKind) :
    Yields (record kind) (DefinitionSketch.Formed limit) :=
  yields_name.bind fun _ isName => (yields_fields enough).bind fun _ fields =>
    .pure (.record isName fields)

/-- The scopes that are drawn are scopes. -/
theorem mem_namespaceScopes_of_mem_commonScopes :
    ∀ scope ∈ commonScopes, scope ∈ namespaceScopes := by decide

/-- A definition is formed. -/
theorem yields_definition (enough : levels ≤ limit) :
    Yields definition (DefinitionSketch.Formed limit) := by
  have types : Yields (type levels) (FieldType.Formed limit) :=
    (yields_type levels).imp fun _ formed => formed.mono enough
  refine .after _ fun pick => ?_
  split
  · exact .after _ fun _ => yields_literal.bind fun _ isLiteral => .pure (.inclusion isLiteral)
  · exact (yields_oneOf mem_namespaceScopes_of_mem_commonScopes).bind fun _ mem =>
      yields_name.bind fun _ isName => .pure (.space mem isName)
  · exact .after _ fun _ => types.bind fun _ formed =>
      yields_name.bind fun _ isName => .pure (.typedef formed isName)
  · exact types.bind fun _ formed => yields_name.bind fun _ isName =>
      (yields_constant levels).bind fun _ within =>
        .pure (.const formed isName within.formed (within.shallow.trans enough))
  · exact .after _ fun _ => (yields_times yields_enumValue _).bind fun _ values =>
      yields_name.bind fun _ isName => (yields_together values.2).bind fun _ formed =>
        .pure (.enum isName formed)
  · exact yields_record enough .struct
  · exact yields_record enough .union
  · exact yields_record enough .exception
  · exact (yields_perhaps 300 yields_name).bind fun _ base => .after _ fun _ =>
      (yields_times (yields_function enough) _).bind fun _ functions =>
        yields_name.bind fun _ isName => (yields_together functions.2).bind fun _ formed =>
          .pure (.service isName base formed)

/-- The definitions of a document are formed. -/
theorem yields_document (enough : levels ≤ limit) :
    Yields document fun definitions => ∀ definition ∈ definitions, definition.Formed limit :=
  .after _ fun _ => (yields_times (yields_definition enough) _).imp fun _ each => each.2

end Documents

section Verdicts

variable {source : List Char} {read : Document Position}

/-- An input that is read in both ways as the same document is no finding. -/
theorem verdict_of_reads (direct : readStrictly standardLimit source = .ok read)
    (overTokens : readGrammatically standardLimit source = .ok read) :
    verdict source = .agreement := by
  have same : read.same read = true := same_self_of_readStrictly direct
  simp only [verdict, Manner.read, direct, overTokens, Except.mapError, same, if_true]

/-- Both readers accept a random document in which no name is a keyword, and give the document that was
drawn, with the same positions. So testing it counts it as accepted, and it is not interesting. The
names of a document are among those that were drawn for it. -/
theorem document_accepted (draws : Draws)
    (free : ∀ name ∈ (documentMeaning (document.run draws).1).names, IsFree name) :
    let input := documentText (document.run draws).1
    (∃ read, readStrictly standardLimit input = .ok read ∧
      readGrammatically standardLimit input = .ok read ∧
        read.map content = documentMeaning (document.run draws).1 ∧ read.same read) ∧
    ∀ journal : Journal, journal.test input =
      ({ journal with tally := { journal.tally with accepted := journal.tally.accepted + 1 } },
        false) := by
  have enough : levels ≤ standardLimit.toNat := by decide
  have formed := yields_document enough draws
  obtain ⟨read, direct, overTokens, meaning⟩ := exists_reads_documentText formed free
  have agreement := verdict_of_reads direct overTokens
  refine ⟨⟨read, direct, overTokens, meaning, same_self_of_readStrictly direct⟩, fun journal => ?_⟩
  simp only [Journal.test, agreement, Verdict.finding?, Tally.count]

/-- A constant with a map type and with random letters for a name is accepted. -/
theorem document_accepted_const :
    let definitions := (document.run (Draws.cycle [0, 3, 850, 4, 1])).1
    let input := "const map<byte, i16> badse = -150".toList
    (∀ name ∈ (documentMeaning definitions).names, IsFree name) ∧ documentText definitions = input ∧
      (∃ read : Document Position, readStrictly standardLimit input = .ok read ∧
        readGrammatically standardLimit input = .ok read ∧ read.same read) ∧
      ((Journal.empty fun _ => "").test input).1.tally.accepted = 1 := by
  have names : (documentMeaning (document.run (Draws.cycle [0, 3, 850, 4, 1])).1).names =
      ["badse"] := by decide +kernel
  have text : documentText (document.run (Draws.cycle [0, 3, 850, 4, 1])).1 =
      "const map<byte, i16> badse = -150".toList := by decide +kernel
  have free : ∀ name ∈ (documentMeaning (document.run (Draws.cycle [0, 3, 850, 4, 1])).1).names,
      IsFree name := by
    rw [names, List.forall_mem_singleton]
    intro word
    cases word with
    | base type => cases type <;> decide
    | _ => decide
  obtain ⟨⟨read, direct, overTokens, -, same⟩, tested⟩ := document_accepted _ free
  rw [text] at direct overTokens tested
  exact ⟨free, text, ⟨read, direct, overTokens, same⟩, by rw [tested]; rfl⟩

end Verdicts

end ThriftIdl.Fuzz
