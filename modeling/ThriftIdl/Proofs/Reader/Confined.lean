import ThriftIdl.Proofs.Reader.Noted
import ThriftIdl.Proofs.Reader.Results
import ThriftIdl.Proofs.Text.Lexeme
import ThriftIdl.Proofs.Text.OneLine
import ThriftIdl.Reader.Production

/-!
# Readers that stay in their text

A reader is confined if it only ever looks at its text (`Reader.Confined`): what it leaves is an end of
the text, whether it fails or not, something holds of its value, and all faults that it meets have plain
reasons, none of which is that it looked beyond the text. A reader that eats moreover never gives a value
for nothing: it leaves less than it found. What holds of the value may tell where it lies in a longer
text, of which the text is an end. There is one law for each way in which readers are put together, and
each reader of a single token is confined. What a confined reader gives does not depend on what stands
before its text.
-/
namespace ThriftIdl

open Text

/-! ### Faults with plain reasons -/

/-- What was noted has a plain reason. -/
def Fault.NotedPlain (noted : Option Fault) : Prop := ∀ fault ∈ noted, fault.reason.Plain

/-- Every fault of a failure has a plain reason. -/
def Failure.Plain (failure : Failure) : Prop := ∀ fault ∈ failure.preorder, fault.reason.Plain

namespace Fault

/-- Where nothing was noted all reasons are plain. -/
theorem notedPlain_none : NotedPlain none := fun _ noted => by cases noted

/-- A fault that was noted is plain if its reason is. -/
theorem notedPlain_some {fault : Fault} (plain : fault.reason.Plain) : NotedPlain (some fault) :=
  fun _ noted => Option.some.inj noted ▸ plain

/-- The better of two faults is one of them. -/
theorem NotedPlain.best {earlier later : Option Fault} (first : NotedPlain earlier)
    (second : NotedPlain later) : NotedPlain (Fault.best earlier later) := by
  cases earlier with
  | none => exact second
  | some earlier =>
    cases later with
    | none => exact first
    | some later =>
      refine notedPlain_some ?_
      split
      · exact second later rfl
      · exact first earlier rfl

end Fault

namespace Failure

/-- A failure without causes is plain if its reason is. -/
theorem plain_node {reason : Reason} {left : Nat} (plain : reason.Plain) :
    Failure.Plain (.node ⟨reason, left⟩ []) := fun _ mem =>
  List.mem_singleton.1 mem ▸ plain

/-- The root of a failure is one of its faults. -/
theorem Plain.head {failure : Failure} (plain : failure.Plain) : failure.head.reason.Plain := by
  cases failure
  exact plain _ List.mem_cons_self

/-- The best fault of a failure is one of its faults. -/
theorem Plain.furthest {failure : Failure} (plain : failure.Plain) : failure.furthest.reason.Plain :=
  plain _ (Trace.furthest_mem_preorder Fault.better failure)

/-- What is noted of failed branches is one of their faults. -/
theorem notedPlain_noteBeyond (left : Nat) {failures : List Failure}
    (plain : ∀ failure ∈ failures, failure.Plain) :
    Fault.NotedPlain (Reader.noteBeyond left failures) := by
  refine List.foldlRecOn failures _ (motive := Fault.NotedPlain) Fault.notedPlain_none
    fun noted before failure mem => ?_
  split
  · exact before.best (Fault.notedPlain_some (plain failure mem).furthest)
  · exact before

end Failure

/-! ### Outcomes that stay in a text -/

/-- An outcome of reading a text that stays in the text, with a value of which something holds. If the
reader eats, a value is not given for nothing. -/
inductive Outcome.Inside {α : Type} (eats : Bool) (text : List Char) (holds : α → Prop) :
    Outcome (List Char) α → Prop where
  /-- A value, and an end of the text. -/
  | ok {value : α} {rest : List Char} {noted : Option Fault} : rest <:+ text →
      (eats → rest.length < text.length) → holds value → Fault.NotedPlain noted →
        Inside eats text holds (.ok value rest noted)
  /-- A failure for plain reasons, and an end of the text. -/
  | fail {failure : Failure} {rest : List Char} {noted : Option Fault} : rest <:+ text →
      failure.Plain → Fault.NotedPlain noted → Inside eats text holds (.fail failure rest noted)

/-- A reader that stays in its text, with a value of which something holds if the text is an end of the
given one. -/
def Reader.Confined {α : Type} (eats : Bool) (source : List Char) (holds : α → Prop)
    (reader : Reader (List Char) α) : Prop :=
  ∀ ⦃text : List Char⦄, text <:+ source → (reader text).Inside eats text holds

section Laws

variable {α β : Type} {eats eats' : Bool} {source text rest : List Char} {holds : α → Prop}
  {holds' : β → Prop} {reader : Reader (List Char) α}

/-- What was noted before has a plain reason as well. -/
theorem Outcome.Inside.after {outcome : Outcome (List Char) α}
    (inside : outcome.Inside eats text holds) {earlier : Option Fault}
    (before : Fault.NotedPlain earlier) : (outcome.after earlier).Inside eats text holds := by
  cases inside with
  | ok suffix less value plain => exact .ok suffix less value (before.best plain)
  | fail suffix faults plain => exact .fail suffix faults (before.best plain)

/-- What stays in the end of a text stays in the text. The end may be shorter instead of what is left
of it. -/
theorem Outcome.Inside.mono {holds' : α → Prop} {outcome : Outcome (List Char) α}
    (inside : outcome.Inside eats rest holds) (suffix : rest <:+ text)
    (shorter : eats' → eats ∨ rest.length < text.length)
    (more : ∀ value, holds value → holds' value) : outcome.Inside eats' text holds' := by
  have length := suffix.length_le
  cases inside with
  | ok inner less value plain =>
    refine .ok (inner.trans suffix) (fun eating => ?_) (more _ value) plain
    have within := inner.length_le
    rcases shorter eating with eating | shorter
    · have less := less eating
      omega
    · omega
  | fail inner faults plain => exact .fail (inner.trans suffix) faults plain

namespace Reader

/-- Less may be said of the value. -/
theorem Confined.mono {holds' : α → Prop} (confined : Confined eats source holds reader)
    (more : ∀ value, holds value → holds' value) : Confined eats source holds' reader :=
  fun _ within => (confined within).mono List.suffix_rfl .inl more

/-- What a confined reader leaves is an end of its text. -/
theorem Confined.of_gives (confined : Confined eats source holds reader) (within : text <:+ source)
    {value : α} (given : reader.Gives text value rest) :
    rest <:+ text ∧ (eats → rest.length < text.length) ∧ holds value := by
  obtain ⟨noted, given⟩ := given
  have inside := confined within
  rw [given] at inside
  cases inside with
  | ok suffix less value => exact ⟨suffix, less, value⟩

/-- A confined reader eats if it never gives a value for nothing. -/
theorem Confined.eating (confined : Confined false source holds reader)
    (less : ∀ {text rest : List Char} {value : α}, reader.Gives text value rest →
      rest.length < text.length) : Confined eats source holds reader := by
  intro text within
  have inside := confined within
  cases reading : reader text with
  | ok value rest noted =>
    rw [reading] at inside
    cases inside with
    | ok suffix _ value plain => exact .ok suffix (fun _ => less ⟨_, reading⟩) value plain
  | fail failure rest noted =>
    rw [reading] at inside
    cases inside with
    | fail suffix faults plain => exact .fail suffix faults plain

/-- A failure at the cursor stays in the text. -/
theorem inside_fail {reason : Reason} (plain : reason.Plain) :
    (fail reason text : Outcome (List Char) α).Inside eats text holds :=
  .fail List.suffix_rfl (Failure.plain_node plain) Fault.notedPlain_none

/-- A value that is given without reading stays in the text. -/
theorem confined_pure {value : α} (here : holds value) :
    Confined false source holds (Reader.pure value : Reader (List Char) α) := fun _ _ =>
  .ok List.suffix_rfl nofun here Fault.notedPlain_none

/-- Two readers in a row eat if one of them does. -/
theorem Confined.seq {next : α → Reader (List Char) β} {both : Bool}
    (first : Confined eats source holds reader)
    (second : ∀ value, holds value → Confined eats' source holds' (next value))
    (either : both → eats' ∨ eats) : Confined both source holds' (reader >>= next) := by
  intro text within
  have opening := first within
  show Outcome.Inside both text holds' (Reader.bind reader next text)
  simp only [Reader.bind]
  generalize reader text = outcome at opening
  cases opening with
  | fail suffix faults plain => exact .fail suffix faults plain
  | @ok value rest noted suffix less value' plain =>
    have shorter : rest <:+ source := suffix.trans within
    have closing := second value value' shorter
    exact (closing.mono suffix (fun eating => (either eating).imp_right less)
      fun _ given => given).after plain

/-- What is read after something that eats need not eat. -/
theorem Confined.bind {next : α → Reader (List Char) β} (first : Confined eats source holds reader)
    (second : ∀ value, holds value → Confined false source holds' (next value)) :
    Confined eats source holds' (reader >>= next) :=
  first.seq second .inr

/-- What is read before something that eats need not eat. -/
theorem Confined.andThen {next : α → Reader (List Char) β} (first : Confined false source holds reader)
    (second : ∀ value, holds value → Confined eats source holds' (next value)) :
    Confined eats source holds' (reader >>= next) :=
  first.seq second .inl

/-- A value may be wrapped. -/
theorem Confined.map {wrap : α → β} (confined : Confined eats source holds reader)
    (wrapped : ∀ value, holds value → holds' (wrap value)) :
    Confined eats source holds' (wrap <$> reader) :=
  confined.bind fun value given => confined_pure (wrapped value given)

/-- A failure for a plain reason is confined. -/
theorem confined_fail {reason : Reason} (plain : reason.Plain) :
    Confined eats source holds (fail reason : Reader (List Char) α) := fun _ _ => inside_fail plain

/-- Trying is confined, though it may give nothing. -/
theorem Confined.optional (confined : Confined false source holds reader) :
    Confined false source (fun found => ∀ value ∈ found, holds value) (optional reader) := by
  intro text within
  have tried := confined within
  simp only [Reader.optional]
  generalize reader text = outcome at tried
  cases tried with
  | ok suffix _ value plain => exact .ok suffix (by simp) (by simpa using value) plain
  | fail suffix faults plain =>
    dsimp only
    split
    · exact .fail suffix faults plain
    · exact .ok List.suffix_rfl (by simp) (by simp) (plain.best (Fault.notedPlain_some faults.furthest))

/-- What is left of a choice stays in the text if its branches are confined. -/
theorem inside_choose {production : String} (oneLine : OneLine production)
    {rules : List (Reader (List Char) α)} (each : ∀ rule ∈ rules, Confined eats source holds rule)
    (within : text <:+ source) {failures : List Failure} (before : ∀ failure ∈ failures, failure.Plain) :
    (choose production text failures rules).Inside eats text holds := by
  induction rules generalizing failures with
  | nil =>
    refine .fail List.suffix_rfl (fun fault mem => ?_) Fault.notedPlain_none
    rcases List.mem_cons.1 mem with rfl | mem
    · exact oneLine
    · obtain ⟨failure, failure_mem, fault_mem⟩ := Trace.mem_preorderOfAll.1 mem
      exact before failure failure_mem fault fault_mem
  | cons rule rules ih =>
    rw [List.forall_mem_cons] at each
    have tried := each.1 within
    simp only [choose]
    generalize rule text = outcome at tried
    cases tried with
    | ok suffix less value plain =>
      exact .ok suffix less value (plain.best (Failure.notedPlain_noteBeyond _ before))
    | @fail failure _ _ suffix faults plain =>
      dsimp only
      split
      · exact .fail suffix faults plain
      · have longer : ∀ earlier ∈ failures ++ [failure], earlier.Plain :=
          List.forall_mem_append.2 ⟨before, List.forall_mem_singleton.2 faults⟩
        exact (ih each.2 longer).after plain

/-- A choice is confined if its branches are. -/
theorem confined_alternatives {production : String} {rules : List (Reader (List Char) α)}
    (oneLine : OneLine production) (each : ∀ rule ∈ rules, Confined eats source holds rule) :
    Confined eats source holds (alternatives production rules) := fun _ within =>
  inside_choose oneLine each within (List.forall_mem_nil _)

/-- A loop stays in the text if its rounds are confined. -/
theorem inside_manyWithin {round : Reader (List Char) (Option α)}
    (confined : Confined false source (fun found => ∀ value ∈ found, holds value) round)
    (within : text <:+ source) (rounds : Nat) :
    (manyWithin round rounds text).Inside false text fun values => ∀ value ∈ values, holds value := by
  induction rounds generalizing text with
  | zero => exact .ok List.suffix_rfl nofun (by simp) Fault.notedPlain_none
  | succ rounds ih =>
    have tried := confined within
    simp only [manyWithin]
    generalize round text = outcome at tried
    cases tried with
    | fail suffix faults plain => exact .fail suffix faults plain
    | @ok found rest noted suffix _ value plain =>
      cases found with
      | none => exact .ok suffix nofun (by simp) plain
      | some found =>
        have here : holds found := value found rfl
        dsimp only
        split
        · have others := ih (suffix.trans within)
          generalize manyWithin round rounds rest = outcome at others
          cases others with
          | fail suffix' faults plain' => exact .fail (suffix'.trans suffix) faults (plain.best plain')
          | ok suffix' _ values plain' =>
            exact .ok (suffix'.trans suffix) nofun (List.forall_mem_cons.2 ⟨here, values⟩)
              (plain.best plain')
        · exact .ok suffix nofun (by simpa using here) plain

/-- A loop is confined if its rounds are. It may have none. -/
theorem Confined.many {round : Reader (List Char) (Option α)}
    (confined : Confined false source (fun found => ∀ value ∈ found, holds value) round) :
    Confined false source (fun values => ∀ value ∈ values, holds value) (many round) := fun _ within =>
  inside_manyWithin confined within _

/-- A container is confined if its inside is, and where it may not be opened it fails for a plain reason. -/
theorem confined_inside {production : String} {inner : Option (Reader (List Char) α)}
    {body : Reader (List Char) α → Reader (List Char) β}
    (oneLine : OneLine production)
    (each : ∀ rule ∈ inner, Confined eats source holds' (body rule)) :
    Confined eats source holds' (inside production inner body) := by
  cases inner with
  | none => exact confined_fail oneLine
  | some rule => exact each rule rfl

end Reader

end Laws

namespace Reader

/-- A reader whose value has no places is confined. -/
def Bare {α : Type} (eats : Bool) (reader : Reader (List Char) α) : Prop :=
  ∀ source, Confined eats source (fun _ => True) reader

section Bare

variable {α β : Type} {eats : Bool} {reader : Reader (List Char) α}

/-- A value is given without reading. -/
theorem bare_pure {value : α} : (Reader.pure value : Reader (List Char) α).Bare false := fun _ =>
  confined_pure trivial

/-- A row eats if its first part does. -/
theorem Bare.bind {next : α → Reader (List Char) β} (first : reader.Bare eats)
    (second : ∀ value, (next value).Bare false) : (reader >>= next).Bare eats := fun source =>
  (first source).bind fun value _ => second value source

/-- A row eats if what follows its first part does. -/
theorem Bare.andThen {next : α → Reader (List Char) β} (first : reader.Bare false)
    (second : ∀ value, (next value).Bare eats) : (reader >>= next).Bare eats := fun source =>
  (first source).andThen fun value _ => second value source

/-- A value may be wrapped. -/
theorem Bare.map {wrap : α → β} (bare : reader.Bare eats) : (wrap <$> reader).Bare eats :=
  bare.bind fun _ => bare_pure

/-- What is tried may be missing. -/
theorem Bare.optional (bare : reader.Bare false) : (optional reader).Bare false := fun source =>
  (bare source).optional.mono fun _ _ => trivial

/-- A choice is bare if its branches are. -/
theorem bare_alternatives {production : String} {rules : List (Reader (List Char) α)}
    (oneLine : OneLine production) (each : ∀ rule ∈ rules, rule.Bare eats) :
    (alternatives production rules).Bare eats := fun source =>
  confined_alternatives oneLine fun rule mem => each rule mem source

/-- A container is bare if its inside is. -/
theorem bare_inside {production : String} {inner : Option (Reader (List Char) α)}
    {body : Reader (List Char) α → Reader (List Char) β} (oneLine : OneLine production)
    (each : ∀ rule ∈ inner, (body rule).Bare eats) : (inside production inner body).Bare eats :=
  fun source => confined_inside oneLine fun rule mem => each rule mem source

end Bare

end Reader

/-! ### Tokens -/

section Tokens

variable {α : Type} {eats : Bool}

/-- What follows something that is not empty is a shorter end of the text. -/
theorem suffix_of_eq_append {text found rest : List Char} (parts : text = found ++ rest)
    (some : found ≠ []) : rest <:+ text ∧ rest.length < text.length := by
  have positive := List.length_pos_iff.2 some
  refine ⟨parts ▸ List.suffix_append _ _, ?_⟩
  rw [parts, List.length_append]
  omega

/-- A number with digits is not empty. -/
theorem Number.text_ne_nil {number : Number} (digits : number.hasDigits) : number.text ≠ [] := by
  rcases number with ⟨sign, whole, fraction, exponent⟩
  simp only [hasDigits, Bool.or_eq_true, Bool.not_eq_true', List.isEmpty_eq_false_iff,
    Option.isSome_iff_exists] at digits
  rcases digits with some | ⟨digits, rfl⟩ <;> simp_all [text]

namespace Reader

/-- What is left when something is cut off is the end of the text. -/
theorem bare_orFail {reason : Reason} {cut : List Char → Option (α × List Char)}
    (plain : reason.Plain) (cuts : ∀ text value rest, cut text = some (value, rest) →
      rest <:+ text ∧ rest.length < text.length) : (orFail reason cut).Bare eats := by
  intro source text _
  simp only [orFail]
  split
  next value rest found =>
    obtain ⟨suffix, less⟩ := cuts text value rest found
    exact .ok suffix (fun _ => less) trivial Fault.notedPlain_none
  next => exact inside_fail plain

/-- A name has at least one character. -/
theorem bare_name : (Readable.name : Reader (List Char) String).Bare eats := by
  refine bare_orFail trivial fun text value rest found => ?_
  obtain ⟨⟨name, left⟩, scanned, same⟩ := Option.map_eq_some_iff.1 found
  obtain ⟨-, rfl⟩ := Prod.mk.inj same
  obtain ⟨parts, isName, -⟩ := scanName?_eq_some_iff.1 scanned
  obtain ⟨_, _, rfl, -⟩ := isName.exists_cons
  exact suffix_of_eq_append parts (List.cons_ne_nil _ _)

/-- What is left behind a word is a shorter end of the text. -/
theorem suffix_of_afterKeyword? {word text rest : List Char} (some : word ≠ [])
    (found : afterKeyword? word text = .some rest) : rest <:+ text ∧ rest.length < text.length :=
  suffix_of_eq_append (afterKeyword?_eq_some_iff.1 found).1 some

/-- The first of some words has at least one character if each of them has. -/
theorem bare_firstWord {β : Type} {reason : Reason} {words : List β} {answer : β → α}
    {after : β → List Char → Option (List Char)} (plain : reason.Plain)
    (cuts : ∀ word ∈ words, ∀ text rest, after word text = some rest →
      rest <:+ text ∧ rest.length < text.length) :
    (orFail reason fun text => words.findSome? fun word =>
      (after word text).map fun left => (answer word, left)).Bare eats := by
  refine bare_orFail plain fun text value rest found => ?_
  obtain ⟨word, mem, found⟩ := List.exists_of_findSome?_eq_some found
  obtain ⟨left, here, same⟩ := Option.map_eq_some_iff.1 found
  obtain ⟨-, rfl⟩ := Prod.mk.inj same
  exact cuts word mem text left here

/-- A keyword has at least one character. -/
theorem bare_keyword {word production : String}
    (plain : word.toList ≠ [] ∧ OneLine word ∧ OneLine production) :
    (Readable.keyword word production : Reader (List Char) Unit).Bare eats := by
  refine bare_orFail plain.2 fun text value rest found => ?_
  obtain ⟨left, here, same⟩ := Option.map_eq_some_iff.1 found
  obtain ⟨-, rfl⟩ := Prod.mk.inj same
  exact suffix_of_afterKeyword? plain.1 here

/-- The first of some keywords has at least one character. -/
theorem bare_oneOf {reason : Reason} {words : List (String × α)} (plain : reason.Plain)
    (some : ∀ word ∈ words, word.1.toList ≠ []) :
    (Readable.oneOf reason words : Reader (List Char) α).Bare eats :=
  bare_firstWord plain fun word mem _ _ => suffix_of_afterKeyword? (some word mem)

/-- The scope of a namespace has at least one character. -/
theorem bare_namespaceScope : (Readable.namespaceScope : Reader (List Char) String).Bare eats := by
  have some : ∀ scope ∈ namespaceScopes, scope.toList ≠ [] := by decide
  refine bare_firstWord trivial fun scope mem text rest found => ?_
  rw [Lexical.afterScope?] at found
  split at found
  · exact suffix_of_eq_append (after?_eq_some_iff.1 found) (some scope mem)
  · exact suffix_of_afterKeyword? (some scope mem) found

/-- A list separator is one character. -/
theorem bare_listSeparator : (Readable.listSeparator : Reader (List Char) Char).Bare eats := by
  intro source text _
  show Outcome.Inside eats text _ (Lexical.listSeparator text)
  cases text with
  | nil => exact inside_fail trivial
  | cons c rest =>
    simp only [Lexical.listSeparator]
    split
    · exact .ok (List.suffix_cons c rest) (fun _ => Nat.lt_succ_self _) trivial Fault.notedPlain_none
    · exact inside_fail trivial

/-- A given character is one character. -/
theorem bare_character {wanted : Char} {production : String} (oneLine : OneLine production) :
    (Readable.character wanted production : Reader (List Char) Unit).Bare eats := by
  intro source text _
  show Outcome.Inside eats text _ (Lexical.character wanted production text)
  cases text with
  | nil => exact inside_fail oneLine
  | cons c rest =>
    simp only [Lexical.character]
    split
    · exact .ok (List.suffix_cons c rest) (fun _ => Nat.lt_succ_self _) trivial Fault.notedPlain_none
    · exact inside_fail oneLine

/-- A literal has at least its quotes. -/
theorem bare_literal : (Readable.literal : Reader (List Char) String).Bare eats := by
  intro source text _
  show Outcome.Inside eats text _ (Lexical.literal text)
  cases text with
  | nil => exact inside_fail trivial
  | cons c rest =>
    simp only [Lexical.literal]
    split
    · exact inside_fail trivial
    · split
      next value left split =>
        have parts : c :: rest = (c :: value ++ [c]) ++ left := congrArg (c :: ·) (eq_of_splitAt? split)
        obtain ⟨suffix, less⟩ := suffix_of_eq_append parts (List.cons_ne_nil _ _)
        exact .ok suffix (fun _ => less) trivial Fault.notedPlain_none
      next => exact inside_fail trivial

/-- A comment has at least its marks. -/
theorem bare_comment : (Readable.comment : Reader (List Char) String).Bare eats := by
  intro source text _
  show Outcome.Inside eats text _ (Lexical.comment text)
  simp only [Lexical.comment]
  split
  next comment rest scanned =>
    exact .ok (suffix_of_scanComment? scanned) (fun _ => length_of_scanComment? scanned) trivial
      Fault.notedPlain_none
  next => exact inside_fail (by split <;> trivial)

/-- A block comment without an end is noted for a plain reason. -/
theorem notedPlain_unclosedNote (text : List Char) : Fault.NotedPlain (Lexical.unclosedNote text) := by
  rw [Lexical.unclosedNote]
  split
  · exact Fault.notedPlain_some trivial
  · exact Fault.notedPlain_none

/-- Blanks and comments may be missing. -/
theorem bare_skipSeparator : (Readable.skipSeparator : Reader (List Char) Bool).Bare false := by
  intro source text _
  show Outcome.Inside false text _ (Lexical.skipSeparator text)
  simp only [Lexical.skipSeparator]
  split
  next rest found =>
    exact .ok ((skip_suffix rest).trans (suffix_of_afterSeparator? found)) nofun trivial
      (notedPlain_unclosedNote _)
  next => exact .ok List.suffix_rfl nofun trivial (notedPlain_unclosedNote _)

/-- A separator has at least one blank or comment. -/
theorem bare_separator : (Readable.separator : Reader (List Char) Unit).Bare eats := by
  intro source text _
  show Outcome.Inside eats text _ (Lexical.separator text)
  simp only [Lexical.separator]
  split
  next rest found =>
    have less := Nat.lt_of_le_of_lt (length_skip_le rest) (length_of_afterSeparator? found)
    exact .ok ((skip_suffix rest).trans (suffix_of_afterSeparator? found)) (fun _ => less) trivial
      (notedPlain_unclosedNote _)
  next => exact inside_fail (by split <;> trivial)

/-- An integer has at least one digit. -/
theorem bare_integer : (Readable.integer : Reader (List Char) Int).Bare eats := by
  intro source text _
  show Outcome.Inside eats text _ (Lexical.integer text)
  simp only [Lexical.integer]
  split
  next => exact inside_fail trivial
  next digits rest scanned =>
    obtain ⟨parts, isInteger, -⟩ := scanInteger?_eq_some_iff.1 scanned
    split
    · obtain ⟨sign, digits, rfl, -, some, -⟩ := isInteger
      obtain ⟨suffix, less⟩ := suffix_of_eq_append parts (List.append_ne_nil_of_right_ne_nil _ some)
      exact .ok suffix (fun _ => less) trivial Fault.notedPlain_none
    · refine inside_fail ?_
      rw [Lexical.integerFault]
      split
      · exact isInteger.oneLine
      · trivial

/-- A number has at least one digit. -/
theorem bare_double : (Readable.double : Reader (List Char) Double).Bare eats := by
  intro source text _
  show Outcome.Inside eats text _ (Lexical.double text)
  simp only [Lexical.double]
  split
  · exact inside_fail trivial
  split
  case isTrue digits =>
    obtain ⟨suffix, less⟩ :=
      suffix_of_eq_append (scanNumber_text takesExponent text).symm (Number.text_ne_nil digits)
    exact .ok suffix (fun _ => less) trivial Fault.notedPlain_none
  case isFalse => exact inside_fail trivial

/-- A number with a fraction or an exponent has at least one digit. -/
theorem bare_strictDouble : (Readable.strictDouble : Reader (List Char) Double).Bare eats := by
  intro source text within
  show Outcome.Inside eats text _ (Lexical.strictDouble text)
  simp only [Lexical.strictDouble]
  split
  · exact inside_fail trivial
  · exact bare_double source within

end Reader

end Tokens

end ThriftIdl
