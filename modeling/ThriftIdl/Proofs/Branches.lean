import ThriftIdl.Proofs.Furthest
import ThriftIdl.Proofs.Numbers
import ThriftIdl.Proofs.Reader.Verdict

/-!
# Branches that exclude each other

What a text begins with decides which branch of a choice can read it. Each definition begins with a
keyword of its own, and so does each type but one that is known by its name, which may be a keyword; the
first character of a constant tells what it is, but for the two kinds of numbers. So the order of the
branches matters between these alone, and each other order has the same verdict
(`Reader.branches_exclude`). There is one exception: the letter of an exponent begins a name as well, and
where more digits follow it than can be converted, trying the number before the name ends reading
(`Reader.halts_of_double_first`).
-/
namespace ThriftIdl

open Text

namespace Reader

variable {α : Type} {text rest : List Char}

/-! ### Keywords -/

section Keywords

/-- A keyword does not stand at the start of a text that does not begin with this word. -/
theorem afterKeyword?_eq_none_of_otherWord {word : String} (isName : IsName word.toList)
    (other : ∀ rest, scanName? text ≠ some (word.toList, rest)) :
    afterKeyword? word.toList text = none := by
  rw [Option.eq_none_iff_forall_not_mem]
  intro rest found
  exact other rest ((afterKeyword?_eq_some_iff_scanName? isName).1 found)

/-- A reader that begins with a keyword refuses a text that does not begin with this word. -/
theorem refuses_of_otherWord {word production : String} {next : Unit → Reader (List Char) α}
    (isName : IsName word.toList) (other : ∀ rest, scanName? text ≠ some (word.toList, rest)) :
    (Readable.keyword word production >>= next).Refuses text := by
  refine Refuses.bind (refuses_orFail (by simp [Reason.kind]) ?_)
  rw [afterKeyword?_eq_none_of_otherWord isName other, Option.map_none]

/-- A reader that begins with a keyword after telling its place refuses a text that does not begin with
this word. -/
theorem refuses_of_otherWord_after_here {word production : String}
    {next : Nat → Unit → Reader (List Char) α} (isName : IsName word.toList)
    (other : ∀ rest, scanName? text ≠ some (word.toList, rest)) :
    (here >>= fun place => Readable.keyword word production >>= next place).Refuses text :=
  Gives.bind_refuses (gives_here.2 ⟨rfl, rfl⟩) (refuses_of_otherWord isName other)

end Keywords

/-! ### Definitions -/

section Definitions

variable {depth : Nat} {production production' : Production}

/-- The productions of definitions have names of their own, which are words. -/
theorem name_definitions :
    (∀ production ∈ Production.definitions, IsName production.name.toList) ∧
      ∀ production ∈ Production.definitions, ∀ production' ∈ Production.definitions,
        production.name = production'.name → production = production' := by
  decide

/-- A definition is read only where its keyword stands, which is the name of its production. -/
theorem exists_scanName?_of_definition (mem : production ∈ Production.definitions)
    (stands : ¬ (production.reader depth).Refuses text) :
    ∃ rest, scanName? text = some (production.name.toList, rest) := by
  by_contra none
  have other : ∀ rest, scanName? text ≠ some (production.name.toList, rest) :=
    fun rest found => none ⟨rest, found⟩
  have isName := name_definitions.1 production mem
  refine stands ?_
  simp only [Production.definitions, List.mem_cons, List.not_mem_nil, or_false] at mem
  -- The first three tell no place, because they are no nodes.
  rcases mem with rfl | rfl | rfl | rfl | rfl | rfl | rfl | rfl | rfl | rfl
  · exact refuses_map.2 (refuses_of_otherWord isName other)
  · exact refuses_map.2 (refuses_of_otherWord isName other)
  · exact refuses_map.2 (refuses_of_otherWord isName other)
  all_goals exact refuses_map.2 (refuses_of_otherWord_after_here isName other)

/-- On a text that one definition does not refuse all others do. -/
theorem definition_unique (mem : production ∈ Production.definitions)
    (mem' : production' ∈ Production.definitions) (stands : ¬ (production.reader depth).Refuses text)
    (stands' : ¬ (production'.reader depth).Refuses text) : production = production' := by
  obtain ⟨rest, scanned⟩ := exists_scanName?_of_definition mem stands
  obtain ⟨rest', scanned'⟩ := exists_scanName?_of_definition mem' stands'
  have same : production.name.toList = production'.name.toList := by
    rw [scanned] at scanned'
    exact (Prod.mk.inj (Option.some.inj scanned')).1
  exact name_definitions.2 production mem production' mem' (String.toList_inj.1 same)

end Definitions

/-! ### Constants -/

/-- The branches of a constant. -/
inductive ConstBranch where
  /-- A reference to a name. -/
  | name
  /-- A literal. -/
  | literal
  /-- A number with a fraction or an exponent. -/
  | double
  /-- An integer. -/
  | int
  /-- A list. -/
  | list
  /-- A map. -/
  | map
deriving DecidableEq

/-- What a constant begins with. -/
inductive Front where
  /-- A letter or an underscore. -/
  | word
  /-- A quote. -/
  | quote
  /-- A digit, a sign or a point. -/
  | number
  /-- A bracket. -/
  | bracket
  /-- A brace. -/
  | brace
deriving DecidableEq

/-- What begins with a character. -/
def Front.ofChar? (c : Char) : Option Front :=
  if isLetter c || c = '_' then some word
  else if c = Quote.single.char || c = Quote.double.char then some quote
  else if isDigit c || c = '+' || c = '-' || c = '.' then some number
  else if c = '[' then some bracket
  else if c = '\x7b' then some brace
  else none

namespace ConstBranch

/-- All branches in the order in which they are tried. -/
def all : List ConstBranch := [name, literal, double, int, list, map]

/-- The reader of a branch, with a reader for what stands inside containers. -/
def reader {ι : Type} [Readable ι] (inner : Option (Reader ι ConstValue)) :
    ConstBranch → Reader ι ConstValue
  | name => ConstValue.name <$> Readable.name
  | literal => ConstValue.literal <$> Readable.literal
  | double => ConstValue.double <$> Readable.strictDouble
  | int => ConstValue.int <$> Readable.integer
  | list => constListOf inner
  | map => constMapOf inner

/-- What a branch begins with. -/
def front : ConstBranch → Front
  | name => .word
  | literal => .quote
  | double | int => .number
  | list => .bracket
  | map => .brace

end ConstBranch

section Constants

variable {inner : Option (Reader (List Char) ConstValue)} {branch branch' : ConstBranch}

/-- A number begins with a digit, a sign or a point. -/
theorem front_of_number (number : ¬ NoNumber text) :
    text.head?.bind Front.ofChar? = some .number := by
  cases text with
  | nil => exact absurd (by simp [NoNumber]) number
  | cons c text =>
    have begins : isDigit c ∨ c = '+' ∨ c = '-' ∨ c = '.' := by
      by_contra other
      simp only [not_or] at other
      exact number (by simpa [NoNumber] using other)
    show Front.ofChar? c = some .number
    rcases begins with digit | rfl | rfl | rfl
    · have noLetter : ¬ isLetter c := fun letter => not_isDigit_of_isLetter letter digit
      have noMark : c ≠ '_' := by rintro rfl; revert digit; decide
      have noQuote : c ≠ Quote.single.char ∧ c ≠ Quote.double.char := by
        constructor <;> (rintro rfl; revert digit; decide)
      simp [Front.ofChar?, noLetter, noMark, noQuote, digit]
    · rfl
    · rfl
    · rfl

/-- A list or a map begins with its bracket. -/
theorem exists_of_character {wanted : Char} {production : String}
    {next : Unit → Reader (List Char) α}
    (stands : ¬ (Readable.character wanted production >>= next).Refuses text) :
    ∃ rest, text = wanted :: rest := by
  by_contra other
  refine stands (Refuses.bind ((decides_character wanted production).refuses fun _ rest given => ?_))
  obtain ⟨noted, given⟩ := given
  change Lexical.character wanted production text = _ at given
  cases text with
  | nil => cases given
  | cons c text =>
    have differs : c ≠ wanted := fun same => other ⟨text, by rw [same]⟩
    simp [Lexical.character, differs, fail] at given

/-- Where no number begins, one is refused unless the letter of an exponent stands there with more digits
than can be converted. -/
theorem letter_of_noNumber (noNumber : NoNumber text)
    (stands : ¬ (Readable.strictDouble : Reader (List Char) Double).Refuses text) :
    text.head?.bind Front.ofChar? = some .word ∧
      ((Readable.strictDouble : Reader (List Char) Double) text).verdict.IsHalt := by
  have parts := scanNumber_text takesExponent text
  have nothing := noNumber.hasDigits takesExponent
  have formed := (wellFormed_scanNumber takesExponent text).1
  rw [refuses_strictDouble_iff_scanNumber, nothing] at stands
  simp only [and_true, not_or, Bool.not_eq_true] at stands
  obtain ⟨fractional, long⟩ := stands
  have many : digitLimit < digitCount (scanNumber takesExponent text).1.scale :=
    Nat.lt_of_not_le (of_decide_eq_false long)
  have ends : Lexical.strictDouble text =
      fail (.tooManyDigits (digitCount (scanNumber takesExponent text).1.scale)) text := by
    simp only [Lexical.strictDouble, Lexical.double, fractional, long, Bool.not_false, ↓reduceIte,
      Bool.false_eq_true]
  refine ⟨?_, _, many, congrArg Outcome.verdict ends⟩
  generalize scanNumber takesExponent text = scanned at parts nothing formed fractional
  obtain ⟨⟨sign, whole, fraction, exponent⟩, rest⟩ := scanned
  simp only [Number.hasDigits, Bool.or_eq_false_iff, Bool.not_eq_false', List.isEmpty_iff,
    Option.isSome_eq_false_iff, Option.isNone_iff_eq_none] at nothing
  obtain ⟨rfl, rfl⟩ := nothing
  cases exponent with
  | none => cases fractional
  | some power =>
    have letter := (formed.exponent power rfl).1
    rcases formed.sign with rfl | rfl | rfl
    · rw [← parts]
      show Front.ofChar? power.1 = some .word
      rcases letter with same | same <;> rw [same] <;> decide
    all_goals exact absurd (noNumber _ (by rw [← parts]; rfl)) (by decide)

/-- A branch is read only where its front stands, but for a number with too many digits that has none before
its exponent. -/
theorem front_of_stands (stands : ¬ (branch.reader inner).Refuses text) :
    text.head?.bind Front.ofChar? = some branch.front ∨
      branch = .double ∧ text.head?.bind Front.ofChar? = some .word ∧
        (branch.reader inner text).verdict.IsHalt := by
  cases branch with
  | name =>
    obtain ⟨value, rest, given⟩ := (decides_orFail (by decide) text).resolve_right
      fun refused => stands (refuses_map.2 refused)
    obtain ⟨word, rfl, isName⟩ := exists_isName_of_gives_name given
    obtain ⟨c, tail, rfl, first⟩ := isName.exists_cons
    refine .inl ?_
    show Front.ofChar? c = some .word
    simp [Front.ofChar?, first]
  | literal =>
    obtain ⟨value, rest, given⟩ := (decides_literal text).resolve_right
      fun refused => stands (refuses_map.2 refused)
    obtain ⟨quote, tail, rfl⟩ := exists_quote_of_gives_literal given
    cases quote <;> exact .inl rfl
  | double =>
    by_cases noNumber : NoNumber text
    · obtain ⟨letter, halt⟩ := letter_of_noNumber noNumber fun refused => stands (refuses_map.2 refused)
      refine .inr ⟨rfl, letter, ?_⟩
      show ((ConstValue.double <$> (Readable.strictDouble : Reader (List Char) Double)) text).verdict.IsHalt
      rw [verdict_map]
      exact halt.bind _
    · exact .inl (front_of_number noNumber)
  | int =>
    refine .inl (front_of_number fun noNumber => stands (refuses_map.2 ?_))
    change (Lexical.integer).Refuses text
    simp only [Refuses, Lexical.integer, noNumber.scanInteger?]
    exact refuses_fail (by decide)
  | list =>
    obtain ⟨rest, rfl⟩ := exists_of_character stands
    exact .inl rfl
  | map =>
    obtain ⟨rest, rfl⟩ := exists_of_character stands
    exact .inl rfl

/-- On a text that one branch does not refuse all others do, but for the two kinds of numbers, and for a name
that may be the exponent of a number with too many digits. -/
theorem eq_or_number_of_stands (stands : ¬ (branch.reader inner).Refuses text)
    (stands' : ¬ (branch'.reader inner).Refuses text) :
    branch = branch' ∨ (branch = .double ∧ branch' = .int) ∨ (branch = .int ∧ branch' = .double) ∨
      ((branch = .double ∧ branch' = .name ∨ branch = .name ∧ branch' = .double) ∧
        ((ConstBranch.double.reader inner) text).verdict.IsHalt) := by
  rcases front_of_stands stands with front | ⟨rfl, front, halt⟩ <;>
    rcases front_of_stands stands' with front' | ⟨rfl, front', halt'⟩
  · have same : branch.front = branch'.front := Option.some.inj (front.symm.trans front')
    cases branch <;> cases branch' <;> simp_all [ConstBranch.front]
  · have same : branch.front = .word := Option.some.inj (front.symm.trans front')
    cases branch <;> simp_all [ConstBranch.front]
  · have same : branch'.front = .word := Option.some.inj (front'.symm.trans front)
    cases branch' <;> simp_all [ConstBranch.front]
  · exact .inl rfl

/-- A mantissa goes on at least as far as the integer with which it begins, and further if it has a
fraction. -/
theorem length_scanMantissa {found after : List Char} (integer : scanInteger? text = some (found, after)) :
    (scanMantissa text).2.length ≤ after.length ∧
      ((scanMantissa text).1.fraction.isSome → (scanMantissa text).2.length < after.length) := by
  obtain rfl : (scanDigits (scanSign text).2).2 = after := by
    simp only [scanInteger?] at integer
    split at integer
    next => cases integer
    next => exact (Prod.mk.inj (Option.some.inj integer)).2
  simp only [scanMantissa]
  cases fraction : scanFraction? (scanDigits (scanSign text).2).2 with
  | none => simp
  | some parts =>
    have length := congrArg List.length (scanFraction?_text fraction)
    simp only [List.length_cons, List.length_append] at length
    refine ⟨?_, fun _ => ?_⟩ <;> dsimp only <;> omega

/-- A number goes on at least as far as its mantissa, and further if it has an exponent. -/
theorem length_scanNumber (admits : List Char → Bool) (text : List Char) :
    (scanNumber admits text).2.length ≤ (scanMantissa text).2.length ∧
      ((scanNumber admits text).1.exponent.isSome →
        (scanNumber admits text).2.length < (scanMantissa text).2.length) := by
  have plain : (scanMantissa text).1.exponent.isSome = false := by rw [exponent_scanMantissa]; rfl
  rw [scanNumber_eq]
  cases exponent : scanExponent? (scanMantissa text).2 with
  | none => simp [plain]
  | some parts =>
    have length := congrArg List.length (scanExponent?_text exponent)
    simp only [List.length_cons, List.length_append] at length
    dsimp only
    split
    · refine ⟨?_, fun _ => ?_⟩ <;> dsimp only <;> omega
    · simp [plain]

/-- A number with a fraction or an exponent goes on after the integer with which it begins. -/
theorem length_lt_of_gives_double {value : Double} {n : Int} {rest' : List Char}
    (given : (Readable.strictDouble : Reader (List Char) Double).Gives text value rest)
    (given' : (Readable.integer : Reader (List Char) Int).Gives text n rest') :
    rest.length < rest'.length := by
  obtain ⟨number, scanned, -, fractional, -⟩ := gives_strictDouble_iff_scanNumber.1 given
  obtain ⟨found, integer, -⟩ := gives_integer.1 given'
  have mantissa := length_scanMantissa integer
  have whole := length_scanNumber takesExponent text
  have fraction : (scanNumber takesExponent text).1.fraction = (scanMantissa text).1.fraction := by
    rw [scanNumber_eq]
    split
    next => split <;> rfl
    next => rfl
  rw [← fraction, scanned] at mantissa
  rw [scanned] at whole
  simp only [Number.isIntegral, Bool.and_eq_false_iff, Option.isNone_eq_false_iff] at fractional
  rcases fractional with fraction | exponent
  · exact Nat.lt_of_le_of_lt whole.1 (mantissa.2 fraction)
  · exact Nat.lt_of_lt_of_le (whole.2 exponent) mantissa.1

end Constants

/-! ### Types -/

/-- The branches of a type. -/
inductive TypeBranch where
  /-- A base type. -/
  | base (type : BaseType)
  /-- A map type. -/
  | map
  /-- A set type. -/
  | set
  /-- A list type. -/
  | list
  /-- A type known by its name. -/
  | named
deriving DecidableEq

namespace TypeBranch

/-- The branches that begin with a keyword, in the order in which they are tried. -/
def keyed : List TypeBranch := BaseType.all.map base ++ [map, set, list]

/-- All branches in the order in which they are tried. -/
def all : List TypeBranch := keyed ++ [named]

/-- Every branch is tried. -/
theorem mem_all (branch : TypeBranch) : branch ∈ all := by
  cases branch with
  | base type => simp [all, keyed, type.mem_all]
  | map | set | list | named => simp [all, keyed]

/-- The reader of a branch, with a reader for what stands inside containers. -/
def reader {ι : Type} [Readable ι] (inner : Option (Reader ι FieldType)) :
    TypeBranch → Reader ι FieldType
  | base type => FieldType.base <$> Readable.oneOf .baseTypeExpected [(type.keyword, type)]
  | map => mapTypeOf inner
  | set => setTypeOf inner
  | list => listTypeOf inner
  | named => FieldType.named <$> Readable.name

/-- The keyword with which a branch begins. -/
def keyword? : TypeBranch → Option String
  | base type => some type.keyword
  | map => some "map"
  | set => some "set"
  | list => some "list"
  | named => none

end TypeBranch

section Types

variable {inner : Option (Reader (List Char) FieldType)} {branch branch' : TypeBranch}

/-- Only a name begins with no keyword. -/
theorem TypeBranch.keyword?_eq_none_iff : branch.keyword? = none ↔ branch = .named := by
  cases branch <;> simp [keyword?]

/-- The keywords of the branches are words. -/
theorem isName_of_keyword? {word : String} (keyword : branch.keyword? = some word) :
    IsName word.toList := by
  have all : ∀ branch ∈ TypeBranch.all, ∀ word ∈ branch.keyword?, IsName word.toList := by decide
  exact all branch branch.mem_all word keyword

/-- Each branch has a keyword of its own. -/
theorem keyword?_inj {word : String} (keyword : branch.keyword? = some word)
    (keyword' : branch'.keyword? = some word) : branch = branch' := by
  have all : ∀ branch ∈ TypeBranch.all, ∀ branch' ∈ TypeBranch.all,
      branch.keyword?.isSome → branch.keyword? = branch'.keyword? → branch = branch' := by
    decide
  exact all branch branch.mem_all branch' branch'.mem_all (by simp [keyword])
    (keyword.trans keyword'.symm)

/-- A type is read only where its keyword stands. -/
theorem exists_scanName?_of_type {word : String} (keyword : branch.keyword? = some word)
    (stands : ¬ (branch.reader inner).Refuses text) :
    ∃ rest, scanName? text = some (word.toList, rest) := by
  by_contra none
  have other : ∀ rest, scanName? text ≠ some (word.toList, rest) :=
    fun rest found => none ⟨rest, found⟩
  have isName := isName_of_keyword? keyword
  refine stands ?_
  cases branch with
  | base type =>
    obtain rfl := Option.some.inj keyword
    refine refuses_map.2 (refuses_orFail (by decide) ?_)
    simp [afterKeyword?_eq_none_of_otherWord isName other]
  | map | set | list =>
    obtain rfl := Option.some.inj keyword
    exact refuses_of_otherWord isName other
  | named => cases keyword

/-- On a text that one branch with a keyword does not refuse all other branches with keywords do. -/
theorem type_unique (keyed : branch ≠ .named) (keyed' : branch' ≠ .named)
    (stands : ¬ (branch.reader inner).Refuses text)
    (stands' : ¬ (branch'.reader inner).Refuses text) : branch = branch' := by
  obtain ⟨word, keyword⟩ := Option.ne_none_iff_exists'.1 (mt TypeBranch.keyword?_eq_none_iff.1 keyed)
  obtain ⟨word', keyword'⟩ := Option.ne_none_iff_exists'.1 (mt TypeBranch.keyword?_eq_none_iff.1 keyed')
  obtain ⟨rest, scanned⟩ := exists_scanName?_of_type keyword stands
  obtain ⟨rest', scanned'⟩ := exists_scanName?_of_type keyword' stands'
  rw [scanned] at scanned'
  have same : word = word' := String.toList_inj.1 (Prod.mk.inj (Option.some.inj scanned')).1
  exact keyword?_inj keyword (same ▸ keyword')

/-- Where a name is read as a type and a branch with a keyword does not refuse, the name is that
keyword. -/
theorem named_of_type {word : String} {type : FieldType} (keyword : branch.keyword? = some word)
    (stands : ¬ (branch.reader inner).Refuses text)
    (given : (TypeBranch.named.reader inner).Gives text type rest) :
    type = .named word ∧ text = word.toList ++ rest := by
  obtain ⟨after, scanned⟩ := exists_scanName?_of_type keyword stands
  obtain ⟨name, read, rfl⟩ := gives_map.1 given
  change (Lexical.name).Gives text name rest at read
  simp only [Lexical.name, gives_orFail, scanned, Option.map_some, Option.some.injEq,
    Prod.mk.injEq, String.ofList_toList] at read
  obtain ⟨rfl, rfl⟩ := read
  exact ⟨rfl, (scanName?_eq_some_iff.1 scanned).1⟩

end Types

/-! ### Orders -/

section Orders

/-- A branch that does not count as a refusal does not refuse. -/
theorem not_refuses_of_isRefusal {reader : Reader (List Char) α}
    (counts : (reader text).verdict.isRefusal = false) : ¬ reader.Refuses text := by
  rw [refuses_iff_verdict, counts]
  exact Bool.false_ne_true

/-- The branches of a definition may be tried in any order. -/
theorem verdict_definition_order {order : List Production} (perm : order.Perm Production.definitions)
    (depth : Nat) (text : List Char) :
    (alternatives "definition" (order.map (Production.reader depth)) text).verdict =
      ((Reading.definition <$> definition depth : Reader (List Char) (Reading Nat)) text).verdict := by
  have alone : ∀ {order : List Production}, order.Perm Production.definitions →
      order.Pairwise fun production production' =>
        (production.reader depth text).verdict.isRefusal = false →
          (production'.reader depth text).verdict.isRefusal = false → False := by
    intro order perm
    have distinct : order.Nodup := perm.nodup_iff.2 (by decide)
    refine distinct.imp_of_mem fun {production production'} mem mem' different counts counts' => ?_
    exact different (definition_unique (perm.mem_iff.1 mem) (perm.mem_iff.1 mem')
      (not_refuses_of_isRefusal counts) (not_refuses_of_isRefusal counts'))
  rw [verdict_alternatives, List.map_map]
  refine (firstVerdict_map_eq (fun _ _ => False) perm (fun _ _ impossible => impossible.elim)
    (alone perm) (alone (.refl _))).trans ?_
  rw [verdict_map, definition, verdict_alternatives, firstVerdict_map]
  simp only [Production.definitions, List.map_cons, List.map_nil, Production.reader, verdict_map,
    Verdict.map_map]
  rfl

section Constants

variable {order : List ConstBranch}

/-- A constant whose branches are tried in a given order, on all levels. -/
def constValueIn {ι : Type} [Readable ι] (order : List ConstBranch) : Nat → Reader ι ConstValue
  | 0 => alternatives "const_value" (order.map (ConstBranch.reader none))
  | depth + 1 =>
    alternatives "const_value" (order.map (ConstBranch.reader (some (constValueIn order depth))))

/-- The branches of a constant may be exchanged for others whose inner constants agree. -/
theorem agrees_constBranch {loose : Prop} {inner inner' : Reader (List Char) ConstValue}
    (agrees : Agrees loose inner inner') (branch : ConstBranch) :
    Agrees loose (branch.reader (some inner)) (branch.reader (some inner')) := by
  cases branch with
  | name | literal | double | int => exact fun _ => .inl rfl
  | list => exact (congruence_agrees loose).constListOf (exchanges_of_agrees agrees)
  | map => exact (congruence_agrees loose).constMapOf (exchanges_of_agrees agrees)

/-- The numbers with a fraction or an exponent are tried before the integers. -/
def NumbersInOrder (order : List ConstBranch) : Prop :=
  order.Pairwise fun earlier later => ¬ (earlier = .int ∧ later = .double)

/-- The names are tried before the numbers with a fraction or an exponent. -/
def NamesFirst (order : List ConstBranch) : Prop :=
  order.Pairwise fun earlier later => ¬ (earlier = .double ∧ later = .name)

/-- The branches of a constant may be tried in any order in which the integers come after the other numbers,
and the names before them where both stand. -/
theorem verdict_constValueOf_order (perm : order.Perm ConstBranch.all) (numbers : NumbersInOrder order)
    {inner : Option (Reader (List Char) ConstValue)} {text : List Char}
    (names : ¬ (ConstBranch.name.reader inner).Refuses text →
      ¬ (ConstBranch.double.reader inner).Refuses text → NamesFirst order) :
    (alternatives "const_value" (order.map (ConstBranch.reader inner)) text).verdict =
      (constValueOf inner text).verdict := by
  let before (branch branch' : ConstBranch) : Prop :=
    branch = .double ∧ branch' = .int ∨ branch = .name ∧ branch' = .double
  -- Two branches that do not refuse come in the order that is asked for.
  have sorted : ∀ {order : List ConstBranch}, order.Perm ConstBranch.all → NumbersInOrder order →
      (¬ (ConstBranch.name.reader inner).Refuses text →
        ¬ (ConstBranch.double.reader inner).Refuses text → NamesFirst order) →
      order.Pairwise fun branch branch' =>
        (branch.reader inner text).verdict.isRefusal = false →
          (branch'.reader inner text).verdict.isRefusal = false → before branch branch' := by
    intro order perm numbers names
    have distinct : order.Nodup := perm.nodup_iff.2 (by decide)
    have named : order.Pairwise fun branch branch' => ¬ (branch.reader inner).Refuses text →
        ¬ (branch'.reader inner).Refuses text → ¬ (branch = .double ∧ branch' = .name) := by
      by_cases both : ¬ (ConstBranch.name.reader inner).Refuses text ∧
          ¬ (ConstBranch.double.reader inner).Refuses text
      · exact (names both.1 both.2).imp fun apart _ _ => apart
      · refine List.pairwise_of_forall fun branch branch' stands stands' => ?_
        rintro ⟨rfl, rfl⟩
        exact both ⟨stands', stands⟩
    refine (distinct.and (numbers.and named)).imp
      fun {branch branch'} ⟨different, number, name⟩ counts counts' => ?_
    have stands := not_refuses_of_isRefusal counts
    have stands' := not_refuses_of_isRefusal counts'
    rcases eq_or_number_of_stands stands stands' with same | right | wrong | ⟨wrong | right, -⟩
    · exact absurd same different
    · exact .inl right
    · exact absurd wrong number
    · exact absurd wrong (name stands stands')
    · exact .inr right
  have all : constValueOf inner =
      alternatives "const_value" (ConstBranch.all.map (ConstBranch.reader inner)) := rfl
  have inOrder : NumbersInOrder ConstBranch.all ∧ NamesFirst ConstBranch.all := by
    simp only [NumbersInOrder, NamesFirst]
    decide
  rw [all, verdict_alternatives, verdict_alternatives, List.map_map, List.map_map]
  refine firstVerdict_map_eq before perm ?_ (sorted perm numbers names)
    (sorted (.refl _) inOrder.1 fun _ _ => inOrder.2)
  rintro _ _ (⟨rfl, rfl⟩ | ⟨rfl, rfl⟩) opposite <;> simp [before] at opposite

/-- Where a name stands, a constant is the name whatever the order of the branches is, unless reading ends
for digits, because a number with a fraction or an exponent stands there as well and is tried first. -/
theorem halts_of_double_first (perm : order.Perm ConstBranch.all)
    {inner : Option (Reader (List Char) ConstValue)} {text : List Char}
    (name : ¬ (ConstBranch.name.reader inner).Refuses text) :
    (alternatives "const_value" (order.map (ConstBranch.reader inner)) text).verdict =
        (constValueOf inner text).verdict ∨
      (alternatives "const_value" (order.map (ConstBranch.reader inner)) text).verdict.IsHalt := by
  have counts : (ConstBranch.name.reader inner text).verdict.isRefusal = false := by
    simpa [refuses_iff_verdict] using name
  have mem : ConstBranch.name ∈ order := perm.mem_iff.2 (by decide)
  have direct : (constValueOf inner text).verdict = (ConstBranch.name.reader inner text).verdict := by
    refine (verdict_alternatives _ _ _).trans ?_
    rw [simpleConstants, List.cons_append, List.map_cons, firstVerdict_cons]
    exact Verdict.orElse_of_isRefusal counts _
  let judge (branch : ConstBranch) : Verdict (ConstValue × List Char) := (branch.reader inner text).verdict
  obtain ⟨first, -, stands, same⟩ := @exists_firstVerdict_eq _ _ judge _ _ mem counts
  rw [verdict_alternatives, List.map_map, direct]
  rcases eq_or_number_of_stands (not_refuses_of_isRefusal stands) name with
    rfl | ⟨-, impossible⟩ | ⟨-, impossible⟩ | ⟨⟨rfl, -⟩ | ⟨-, impossible⟩, halt⟩
  · exact .inl same
  · cases impossible
  · cases impossible
  · have halts : (firstVerdict (order.map judge)).IsHalt := by
      rw [same]
      exact halt
    exact .inr halts
  · cases impossible

/-- The branches of a constant may be tried in any order in which the integers come after the other numbers,
unless the names do not come before them and reading ends for digits. -/
theorem agrees_constValueOf_order (perm : order.Perm ConstBranch.all) (numbers : NumbersInOrder order)
    (inner : Option (Reader (List Char) ConstValue)) :
    Agrees (¬ NamesFirst order) (alternatives "const_value" (order.map (ConstBranch.reader inner)))
      (constValueOf inner) := by
  intro text
  by_cases names : ¬ (ConstBranch.name.reader inner).Refuses text →
      ¬ (ConstBranch.double.reader inner).Refuses text → NamesFirst order
  · exact .inl (verdict_constValueOf_order perm numbers names)
  · simp only [Classical.not_imp] at names
    obtain ⟨name, -, late⟩ := names
    exact (halts_of_double_first perm name).imp_right fun halt => ⟨late, halt⟩

/-- On no level of a constant the order of the branches matters but for the numbers, unless the names do not
come before them and reading ends for digits. -/
theorem agrees_constValueIn (perm : order.Perm ConstBranch.all) (numbers : NumbersInOrder order)
    (depth : Nat) :
    Agrees (¬ NamesFirst order) (constValueIn order depth)
      (constValue depth : Reader (List Char) ConstValue) := by
  induction depth with
  | zero => exact agrees_constValueOf_order perm numbers none
  | succ depth ih =>
    have branches :=
      (congruence_agrees _).alternatives_map (agrees_constBranch ih) "const_value" order
    exact branches.trans (agrees_constValueOf_order perm numbers (some (constValue depth)))

end Constants

section Types

variable {order : List TypeBranch}

/-- A type whose branches are tried in a given order, on all levels. -/
def fieldTypeIn {ι : Type} [Readable ι] (order : List TypeBranch) : Nat → Reader ι FieldType
  | 0 => alternatives "field_type" (order.map (TypeBranch.reader none))
  | depth + 1 =>
    alternatives "field_type" (order.map (TypeBranch.reader (some (fieldTypeIn order depth))))

/-- The branches of a type may be exchanged for others whose inner types agree. -/
theorem agrees_typeBranch {inner inner' : Reader (List Char) FieldType} (agrees : Agrees False inner inner')
    (branch : TypeBranch) :
    Agrees False (branch.reader (some inner)) (branch.reader (some inner')) := by
  cases branch with
  | base | named => exact fun _ => .inl rfl
  | map => exact (congruence_agrees False).mapTypeOf (exchanges_of_agrees agrees)
  | set => exact (congruence_agrees False).setTypeOf (exchanges_of_agrees agrees)
  | list => exact (congruence_agrees False).listTypeOf (exchanges_of_agrees agrees)

/-- Trying some keywords at once is trying them one after the other. -/
theorem verdict_oneOf {reason : Reason} (kind : reason.kind ≠ .nesting) (words : List (String × α))
    (text : List Char) :
    ((Readable.oneOf reason words : Reader (List Char) α) text).verdict =
      firstVerdict (words.map fun word =>
        ((Readable.oneOf reason [word] : Reader (List Char) α) text).verdict) := by
  have refused : ((fail reason : Reader (List Char) α) text).verdict = .refuses :=
    if_neg (Bool.eq_false_iff.1 (decide_eq_false kind))
  change (Lexical.oneOf reason words text).verdict =
    firstVerdict (words.map fun word => (Lexical.oneOf reason [word] text).verdict)
  induction words with
  | nil => exact refused
  | cons word words ih =>
    rw [List.map_cons, firstVerdict_cons, ← ih]
    cases found : afterKeyword? word.1.toList text with
    | some rest => simp [Lexical.oneOf, orFail, found, Outcome.verdict, Verdict.orElse]
    | none => simp [Lexical.oneOf, orFail, found, refused]

/-- A base type is one of the branches that begin with keywords. -/
theorem verdict_baseType (inner : Option (Reader (List Char) FieldType)) (text : List Char) :
    ((FieldType.base <$> baseType : Reader (List Char) FieldType) text).verdict =
      firstVerdict (BaseType.all.map fun type =>
        ((TypeBranch.base type).reader inner text).verdict) := by
  rw [verdict_map, baseType, verdict_oneOf (by decide), firstVerdict_map, List.map_map, List.map_map]
  simp only [TypeBranch.reader, verdict_map]
  rfl

/-- A type is read by its branches one after the other. -/
theorem verdict_fieldTypeOf (inner : Option (Reader (List Char) FieldType)) (text : List Char) :
    (fieldTypeOf inner text).verdict =
      firstVerdict (TypeBranch.all.map fun branch => (branch.reader inner text).verdict) := by
  have containers : (containerTypeOf inner text).verdict =
      firstVerdict ([TypeBranch.map, .set, .list].map fun branch => (branch.reader inner text).verdict) :=
    verdict_alternatives _ _ _
  calc (fieldTypeOf inner text).verdict
    _ = ((FieldType.base <$> baseType : Reader (List Char) FieldType) text).verdict.orElse
        ((containerTypeOf inner text).verdict.orElse
          (firstVerdict [(TypeBranch.named.reader inner text).verdict])) := verdict_alternatives _ _ _
    _ = firstVerdict (TypeBranch.all.map fun branch => (branch.reader inner text).verdict) := by
      rw [verdict_baseType inner, containers, ← Verdict.orElse_assoc, ← firstVerdict_append,
        ← firstVerdict_append]
      rfl

/-- The branches of a type may be tried in any order with the name as the last. -/
theorem agrees_fieldTypeOf_order (perm : order.Perm TypeBranch.keyed)
    (inner : Option (Reader (List Char) FieldType)) :
    Agrees False
      (alternatives "field_type" ((order ++ [TypeBranch.named]).map (TypeBranch.reader inner)))
      (fieldTypeOf inner) := by
  intro text
  -- Only a name can stand where another branch can be read, and it comes last in both orders.
  have sorted : ∀ {order : List TypeBranch}, order.Perm TypeBranch.keyed →
      (order ++ [TypeBranch.named]).Pairwise fun branch branch' =>
        (branch.reader inner text).verdict.isRefusal = false →
          (branch'.reader inner text).verdict.isRefusal = false →
            branch ≠ .named ∧ branch' = .named := by
    intro order perm
    have keyed : ∀ branch ∈ order, branch ≠ .named := fun branch mem => by
      have all : ∀ branch ∈ TypeBranch.keyed, branch ≠ .named := by decide
      exact all branch (perm.mem_iff.1 mem)
    have distinct : order.Nodup := perm.nodup_iff.2 (by decide)
    refine List.pairwise_append.2 ⟨?_, List.pairwise_singleton _ _, ?_⟩
    · refine distinct.imp_of_mem fun {branch branch'} mem mem' different counts counts' => ?_
      exact absurd (type_unique (keyed branch mem) (keyed branch' mem')
        (not_refuses_of_isRefusal counts) (not_refuses_of_isRefusal counts')) different
    · intro branch mem branch' last _ _
      exact ⟨keyed branch mem, List.mem_singleton.1 last⟩
  rw [verdict_alternatives, List.map_map, verdict_fieldTypeOf]
  left
  refine firstVerdict_map_eq (fun branch branch' : TypeBranch => branch ≠ .named ∧ branch' = .named)
    (perm.append_right _) ?_ (sorted perm) (sorted (.refl _))
  rintro branch _ ⟨keyed, rfl⟩ ⟨impossible, -⟩
  exact absurd rfl impossible

/-- On no level of a type the order of the branches matters as long as the name is the last. -/
theorem agrees_fieldTypeIn (perm : order.Perm TypeBranch.keyed) (depth : Nat) :
    Agrees False (fieldTypeIn (order ++ [TypeBranch.named]) depth)
      (fieldType depth : Reader (List Char) FieldType) := by
  induction depth with
  | zero => exact agrees_fieldTypeOf_order perm none
  | succ depth ih =>
    have branches := (congruence_agrees False).alternatives_map (agrees_typeBranch ih) "field_type"
      (order ++ [TypeBranch.named])
    exact branches.trans (agrees_fieldTypeOf_order perm (some (fieldType depth)))

end Types

end Orders

/-! ### All choices -/

/-- Where a text goes on, the branches of each choice exclude each other except where their order is
meant to matter, and all other orders have the same verdict. -/
structure BranchesExclude (depth : Nat) (text : List Char) : Prop where
  /-- At most one definition can be read. -/
  definitions : ∀ production ∈ Production.definitions, ∀ production' ∈ Production.definitions,
    ∀ reading rest reading' rest', (production.reader depth).Gives text reading rest →
      (production'.reader depth).Gives text reading' rest' → production = production'
  /-- If two branches of a constant can be read, they are the two kinds of numbers, and the one with a
  fraction or an exponent goes on further. -/
  constants : ∀ (branch branch' : ConstBranch) value rest value' rest', branch ≠ branch' →
    (branch.reader (innerConstant depth)).Gives text value rest →
      (branch'.reader (innerConstant depth)).Gives text value' rest' →
        (branch = .double ∧ branch' = .int ∧ rest.length < rest'.length) ∨
          (branch = .int ∧ branch' = .double ∧ rest'.length < rest.length)
  /-- If two branches of a type can be read, one is a name, and this is the keyword with which the other
  one begins. -/
  types : ∀ (branch branch' : TypeBranch) type rest type' rest', branch ≠ branch' →
    (branch.reader (innerType depth)).Gives text type rest →
      (branch'.reader (innerType depth)).Gives text type' rest' →
        (branch' = .named ∧ ∃ word, branch.keyword? = some word ∧ type' = .named word ∧
          text = word.toList ++ rest') ∨
        (branch = .named ∧ ∃ word, branch'.keyword? = some word ∧ type = .named word ∧
          text = word.toList ++ rest)
  /-- Definitions may be tried in any order. -/
  definitionOrder : ∀ order : List Production, order.Perm Production.definitions →
    (alternatives "definition" (order.map (Production.reader depth)) text).verdict =
      ((Reading.definition <$> definition depth : Reader (List Char) (Reading Nat)) text).verdict
  /-- On all levels of a constant the branches may be tried in any order in which the integers come
  after the other numbers. Only where the names do not come before these, reading may end for digits instead,
  after the letter of an exponent. -/
  constantOrder : ∀ order : List ConstBranch, order.Perm ConstBranch.all → NumbersInOrder order →
    (constValueIn order depth text).verdict = (constValue depth text).verdict ∨
      ¬ NamesFirst order ∧ (constValueIn order depth text).verdict.IsHalt
  /-- On all levels of a type the branches may be tried in any order with the name as the last. -/
  typeOrder : ∀ order : List TypeBranch, order.Perm TypeBranch.keyed →
    (fieldTypeIn (order ++ [.named]) depth text).verdict = (fieldType depth text).verdict

/-- Wherever a cursor stands in a text or beyond it, the branches of each choice exclude each other
except where their order is meant to matter, and all other orders have the same verdict. -/
theorem branches_exclude (limit : Int) (source : List Char) (offset : Nat) :
    BranchesExclude limit.toNat (source.drop offset) where
  definitions production mem production' mem' _ _ _ _ given given' :=
    definition_unique mem mem' given.not_refuses given'.not_refuses
  constants branch branch' value rest value' rest' different given given' := by
    rcases eq_or_number_of_stands given.not_refuses given'.not_refuses with
      same | ⟨rfl, rfl⟩ | ⟨rfl, rfl⟩ | ⟨⟨rfl, -⟩ | ⟨-, rfl⟩, halt⟩
    · exact absurd same different
    · obtain ⟨_, double, -⟩ := gives_map.1 given
      obtain ⟨_, int, -⟩ := gives_map.1 given'
      exact .inl ⟨rfl, rfl, length_lt_of_gives_double double int⟩
    · obtain ⟨_, int, -⟩ := gives_map.1 given
      obtain ⟨_, double, -⟩ := gives_map.1 given'
      exact .inr ⟨rfl, rfl, length_lt_of_gives_double double int⟩
    · exact absurd given (not_gives_of_isHalt halt)
    · exact absurd given' (not_gives_of_isHalt halt)
  types branch branch' type rest type' rest' different given given' := by
    cases keyword : branch.keyword? with
    | some word =>
      cases keyword' : branch'.keyword? with
      | some word' =>
        have same : branch = branch' := type_unique (by rintro rfl; cases keyword)
          (by rintro rfl; cases keyword') given.not_refuses given'.not_refuses
        exact absurd same different
      | none =>
        obtain rfl : branch' = .named := TypeBranch.keyword?_eq_none_iff.1 keyword'
        exact .inl ⟨rfl, word, rfl, named_of_type keyword given.not_refuses given'⟩
    | none =>
      obtain rfl : branch = .named := TypeBranch.keyword?_eq_none_iff.1 keyword
      cases keyword' : branch'.keyword? with
      | some word => exact .inr ⟨rfl, word, rfl, named_of_type keyword' given'.not_refuses given⟩
      | none => exact absurd (TypeBranch.keyword?_eq_none_iff.1 keyword').symm different
  definitionOrder _ perm := verdict_definition_order perm _ _
  constantOrder _ perm numbers := agrees_constValueIn perm numbers _ _
  typeOrder _ perm := (agrees_fieldTypeIn perm _).verdict_eq _

/-- In the midst of a text both kinds of numbers can be read, and the one with a fraction goes on
further. -/
theorem branches_exclude_fraction : ∃ value rest value' rest',
    (ConstBranch.double.reader (innerConstant (1 : Int).toNat)).Gives ("x = 1.5,".toList.drop 4) value
        rest ∧
      (ConstBranch.int.reader (innerConstant (1 : Int).toNat)).Gives ("x = 1.5,".toList.drop 4) value'
        rest' ∧ rest.length < rest'.length := by
  have double := (gives_strictDouble_iff_scanNumber.2
    ⟨⟨[], ['1'], some ['5'], none⟩, by decide, rfl, rfl, rfl, rfl⟩ :
      (Readable.strictDouble : Reader (List Char) Double).Gives ("x = 1.5,".toList.drop 4) _ [',']).map
        ConstValue.double
  have int := (gives_integer.2 ⟨['1'], by decide, by decide, rfl⟩ :
    (Readable.integer : Reader (List Char) Int).Gives ("x = 1.5,".toList.drop 4) _
      ['.', '5', ',']).map ConstValue.int
  rcases (branches_exclude 1 "x = 1.5,".toList 4).constants .double .int _ _ _ _ (by decide) double int
    with ⟨-, -, further⟩ | ⟨impossible, -⟩
  · exact ⟨_, _, _, _, double, int, further⟩
  · cases impossible

end Reader
end ThriftIdl
