import ThriftIdl.Proofs.Grammar.Depth

/-!
# Lexemes that stand apart

Whether lexemes are apart wherever one asks for it can be told in one pass over them, which counts the
lists and maps of constants that are open (`standApart`). If they are, then what they spell without
being asked to be parted they spell parted as well (`DefinitionsSpelling.of_standApart`).
-/
namespace ThriftIdl

/-- A constant may end with a lexeme. -/
def Lexeme.endsConstant (lexeme : Lexeme) : Bool :=
  match lexeme.shape with
  | .word | .literal | .double | .integer => true
  | .mark symbol => symbol = .rightSquare || symbol = .rightBrace

/-- A constant may begin with a lexeme. -/
def Lexeme.beginsConstant (lexeme : Lexeme) : Bool :=
  match lexeme.shape with
  | .word | .literal | .double | .integer => true
  | .mark symbol => symbol = .leftSquare || symbol = .leftBrace

/-- A place between lexemes: how many lists and maps of constants are open, and what is before it. -/
structure Spot where
  /-- The number of lists and maps of constants that are open. -/
  depth : Nat
  /-- The lexeme before the place. -/
  last : Option Lexeme

namespace Spot

/-- A brace opens a map of constants within constants and after the sign of a default value. Elsewhere
it opens a body. -/
def opensMap (spot : Spot) : Bool :=
  0 < spot.depth || spot.last.any (·.shape = .mark .equal)

/-- The place after a lexeme. -/
def next (spot : Spot) (lexeme : Lexeme) : Spot :=
  ⟨match lexeme.shape with
    | .mark .leftSquare => spot.depth + 1
    | .mark .leftBrace => if spot.opensMap then spot.depth + 1 else spot.depth
    | .mark .rightSquare | .mark .rightBrace => spot.depth - 1
    | _ => spot.depth,
    some lexeme⟩

/-- A lexeme may stand at a place: it is apart, or it is not asked to be. The star of a namespace is
asked to be, and so is a constant after another in a list or a map. -/
def admits (spot : Spot) (lexeme : Lexeme) : Bool :=
  lexeme.apart || !(lexeme.shape = .mark .star ||
    (0 < spot.depth && spot.last.any Lexeme.endsConstant && lexeme.beginsConstant))

/-- The place after some lexemes. -/
def after (spot : Spot) (lexemes : List Lexeme) : Spot := lexemes.foldl next spot

/-- Lexemes may stand one after the other from a place on. -/
def admitsAll (spot : Spot) : List Lexeme → Bool
  | [] => true
  | lexeme :: others => spot.admits lexeme && (spot.next lexeme).admitsAll others

/-- The place before the first lexeme. -/
def start : Spot := ⟨0, none⟩

end Spot

/-- Each lexeme of a text is apart where the grammar may ask for it. -/
def standApart (lexemes : List Lexeme) : Bool := Spot.start.admitsAll lexemes

section Spots

variable {spot : Spot} {lexeme : Lexeme} {first others lexemes : List Lexeme}

/-- No lexemes lead nowhere else. -/
@[simp] theorem Spot.after_nil : spot.after [] = spot := rfl

/-- Lexemes lead on one by one. -/
@[simp] theorem Spot.after_cons :
    spot.after (lexeme :: others) = (spot.next lexeme).after others := rfl

/-- Lexemes lead on from where those before them led to. -/
@[simp] theorem Spot.after_append : spot.after (first ++ others) = (spot.after first).after others :=
  List.foldl_append

/-- No lexemes may stand anywhere. -/
@[simp] theorem Spot.admitsAll_nil : spot.admitsAll [] = true := rfl

/-- Lexemes may stand in a row if the first may and the others may after it. -/
@[simp] theorem Spot.admitsAll_cons : spot.admitsAll (lexeme :: others) = true ↔
    spot.admits lexeme = true ∧ (spot.next lexeme).admitsAll others = true :=
  Bool.and_eq_true_iff

/-- Two rows may stand one after the other if the second may where the first leads to. -/
@[simp] theorem Spot.admitsAll_append : spot.admitsAll (first ++ others) = true ↔
    spot.admitsAll first = true ∧ (spot.after first).admitsAll others = true := by
  induction first generalizing spot with
  | nil => simp
  | cons lexeme first ih => simp [ih, and_assoc]

/-- Lexemes may stand one after the other from a place on, and can be converted if they are numbers. -/
def Spot.suits (spot : Spot) (lexemes : List Lexeme) : Prop :=
  spot.admitsAll lexemes ∧ ∀ lexeme ∈ lexemes, lexeme.converts

/-- A row suits if its first lexeme does and the others suit after it. -/
@[simp] theorem Spot.suits_cons : spot.suits (lexeme :: others) ↔
    (spot.admits lexeme ∧ lexeme.converts) ∧ (spot.next lexeme).suits others := by
  rw [suits, suits, admitsAll_cons, List.forall_mem_cons, and_and_and_comm]

/-- Two rows suit one after the other if the second suits where the first leads to. -/
@[simp] theorem Spot.suits_append : spot.suits (first ++ others) ↔
    spot.suits first ∧ (spot.after first).suits others := by
  rw [suits, suits, suits, admitsAll_append, List.forall_mem_append, and_and_and_comm]

/-- The place after a lexeme knows it. -/
@[simp] theorem Spot.next_last : (spot.next lexeme).last = some lexeme := rfl

/-- A lexeme is no bracket of a list or a map, and no number with a fraction or an exponent. -/
structure Lexeme.Flat (lexeme : Lexeme) : Prop where
  /-- It opens and closes nothing. -/
  noBracket : ∀ symbol : Mark, lexeme.shape = .mark symbol → symbol ≠ .leftSquare ∧
    symbol ≠ .leftBrace ∧ symbol ≠ .rightSquare ∧ symbol ≠ .rightBrace
  /-- It has no exponent. -/
  noDouble : lexeme.shape ≠ .double

/-- A lexeme that is neither a mark nor a number with a fraction or an exponent is flat. -/
theorem Lexeme.flat_of_shape {shape : Shape} (same : lexeme.shape = shape)
    (noMark : ∀ symbol, shape ≠ .mark symbol) (noDouble : shape ≠ .double) : lexeme.Flat where
  noBracket symbol mark := absurd (same.symm.trans mark) (noMark symbol)
  noDouble double := noDouble (same.symm.trans double)

/-- A word is flat. -/
theorem Lexeme.IsWord.flat {word : String} (isWord : lexeme.IsWord word) : lexeme.Flat :=
  lexeme.flat_of_shape isWord.1 nofun nofun

/-- A mark is flat if it is no bracket of a list or a map. -/
theorem Lexeme.IsMark.flat {symbol : Mark} (isMark : lexeme.IsMark symbol)
    (other : symbol ≠ .leftSquare ∧ symbol ≠ .leftBrace ∧ symbol ≠ .rightSquare ∧
      symbol ≠ .rightBrace) : lexeme.Flat where
  noBracket symbol' isMark' := by
    obtain rfl := isMark.unique isMark'
    exact other
  noDouble double := nomatch double.symm.trans isMark

/-- Two flat lexemes are flat. -/
theorem flat_pair {one other : Lexeme} (flat : one.Flat) (flat' : other.Flat) :
    ∀ lexeme ∈ [one, other], lexeme.Flat :=
  List.forall_mem_cons.2 ⟨flat, List.forall_mem_singleton.2 flat'⟩

/-- A flat lexeme opens and closes nothing. -/
theorem Lexeme.Flat.next_depth (flat : lexeme.Flat) (spot : Spot) :
    (spot.next lexeme).depth = spot.depth := by
  simp only [Spot.next]
  split
  next mark => exact absurd rfl (flat.noBracket _ mark).1
  next mark => exact absurd rfl (flat.noBracket _ mark).2.1
  next mark => exact absurd rfl (flat.noBracket _ mark).2.2.1
  next mark => exact absurd rfl (flat.noBracket _ mark).2.2.2
  next => rfl

/-- Flat lexemes open and close nothing. -/
theorem Spot.after_flat (flat : ∀ lexeme ∈ lexemes, lexeme.Flat) (spot : Spot) :
    (spot.after lexemes).depth = spot.depth := by
  induction lexemes generalizing spot with
  | nil => rfl
  | cons lexeme lexemes ih =>
    obtain ⟨first, others⟩ := List.forall_mem_cons.1 flat
    rw [after_cons, ih others, first.next_depth]

/-- Within a list or a map, a constant after another is apart. -/
theorem Spot.apart_of_admits {last : Lexeme} (inside : 0 < spot.depth)
    (before : spot.last = some last) (ends : last.endsConstant) (begins : lexeme.beginsConstant)
    (admits : spot.admits lexeme) : lexeme.apart := by
  simpa [Spot.admits, inside, before, ends, begins] using admits

end Spots

section Flat

variable {parted : Bool} {depth : Nat} {lexemes : List Lexeme}

/-- The lexemes of a type of another language are flat. -/
theorem CppTypeSpelling.flat (spelled : CppTypeSpelling lexemes) :
    ∀ lexeme ∈ lexemes, lexeme.Flat := by
  cases spelled with
  | absent => simp
  | present isWord shape =>
    exact flat_pair isWord.flat (Lexeme.flat_of_shape shape nofun nofun)

/-- The lexemes of a type are flat. -/
theorem TypeSpelling.flat {type : FieldType} (spelled : TypeSpelling depth lexemes type) :
    ∀ lexeme ∈ lexemes, lexeme.Flat := by
  induction depth generalizing lexemes type with
  | zero =>
    rcases spelled with base | named
    · cases base with
      | base isWord => exact List.forall_mem_singleton.2 isWord.flat
    · cases named with
      | named isWord => exact List.forall_mem_singleton.2 isWord.flat
  | succ depth ih =>
    rcases typeSpelling_succ.1 spelled with (base | named) | container
    · cases base with
      | base isWord => exact List.forall_mem_singleton.2 isWord.flat
    · cases named with
      | named isWord => exact List.forall_mem_singleton.2 isWord.flat
    cases container with
    | map isWord cppType less key comma value more =>
      simp only [List.forall_mem_cons, List.forall_mem_append]
      exact ⟨isWord.flat, cppType.flat, less.flat (by decide), ih key, comma.flat (by decide),
        ih value, more.flat (by decide), by simp⟩
    | set isWord cppType less element more =>
      simp only [List.forall_mem_cons, List.forall_mem_append]
      exact ⟨isWord.flat, cppType.flat, less.flat (by decide), ih element, more.flat (by decide),
        by simp⟩
    | list isWord less element more cppType =>
      simp only [List.forall_mem_cons, List.forall_mem_append]
      exact ⟨isWord.flat, less.flat (by decide), ih element, more.flat (by decide), cppType.flat⟩

/-- A list separator is flat. -/
theorem SeparatorSpelling.flat (spelled : SeparatorSpelling lexemes) :
    ∀ lexeme ∈ lexemes, lexeme.Flat := by
  cases spelled with
  | absent => simp
  | comma isMark => exact List.forall_mem_singleton.2 (isMark.flat (by decide))
  | semicolon isMark => exact List.forall_mem_singleton.2 (isMark.flat (by decide))

/-- The number of a field is flat. -/
theorem FieldIdSpelling.flat {id : Option Int} (spelled : FieldIdSpelling lexemes id) :
    ∀ lexeme ∈ lexemes, lexeme.Flat := by
  cases spelled with
  | absent => simp
  | present shape _ colon =>
    exact flat_pair (Lexeme.flat_of_shape shape nofun nofun) (colon.flat (by decide))

/-- The word before a type is flat. -/
theorem RequirednessSpelling.flat {requiredness : Requiredness} {types : List Lexeme}
    {type : FieldType} (spelled : RequirednessSpelling lexemes requiredness types type) :
    ∀ lexeme ∈ lexemes, lexeme.Flat := by
  cases spelled with
  | unstated => simp
  | required isWord | optional isWord => exact List.forall_mem_singleton.2 isWord.flat

/-- The result of a function is flat. -/
theorem ResultSpelling.flat {result : Option FieldType} (spelled : ResultSpelling depth lexemes result) :
    ∀ lexeme ∈ lexemes, lexeme.Flat := by
  cases spelled with
  | void isWord => exact List.forall_mem_singleton.2 isWord.flat
  | type spelledType => exact spelledType.flat

/-- The word before a function is flat. -/
theorem OnewaySpelling.flat {oneway : Bool} {results : List Lexeme} {result : Option FieldType}
    (spelled : OnewaySpelling lexemes oneway results result) : ∀ lexeme ∈ lexemes, lexeme.Flat := by
  cases spelled with
  | absent => simp
  | present isWord => exact List.forall_mem_singleton.2 isWord.flat

/-- The value of an enumeration is flat. -/
theorem EnumValueSpelling.flat {value : EnumValue Nat} (spelled : EnumValueSpelling lexemes value) :
    ∀ lexeme ∈ lexemes, lexeme.Flat := by
  cases spelled with
  | plain isWord => exact List.forall_mem_singleton.2 isWord.flat
  | numbered isWord isEqual shape =>
    simp only [List.forall_mem_cons]
    exact ⟨isWord.flat, isEqual.flat (by decide),
      Lexeme.flat_of_shape shape nofun nofun, by simp⟩

/-- The values of an enumeration are flat. -/
theorem flat_of_enumValues {values : List (EnumValue Nat)}
    (spelled : Elements parted EnumValueSpelling lexemes values) :
    ∀ lexeme ∈ lexemes, lexeme.Flat := by
  induction spelled with
  | nil => simp
  | cons first separator _ _ ih =>
    exact List.forall_mem_append.2 ⟨first.flat, List.forall_mem_append.2 ⟨separator.flat, ih⟩⟩

/-- The service that a service extends is flat. -/
theorem BaseSpelling.flat {base : Option String} (spelled : BaseSpelling lexemes base) :
    ∀ lexeme ∈ lexemes, lexeme.Flat := by
  cases spelled with
  | absent => simp
  | present isKeyword isWord =>
    exact flat_pair isKeyword.flat isWord.flat

end Flat

section Constants

variable {spot : Spot} {depth : Nat} {lexemes : List Lexeme}

/-- A constant begins with a lexeme that may begin one. -/
theorem ConstantSpelling.begins {parted : Bool} {value : ConstValue}
    (spelled : ConstantSpelling parted depth lexemes value) :
    ∃ lexeme others, lexemes = lexeme :: others ∧ lexeme.beginsConstant := by
  have simple : ∀ {lexemes value}, SimpleConstantSpelling parted lexemes value →
      ∃ lexeme others, lexemes = lexeme :: others ∧ lexeme.beginsConstant := by
    rintro _ _ (isWord | shape | ⟨shape, -⟩ | ⟨shape, -⟩)
    · exact ⟨_, [], rfl, by simp [Lexeme.beginsConstant, isWord.1]⟩
    all_goals exact ⟨_, [], rfl, by simp [Lexeme.beginsConstant, shape]⟩
  cases depth with
  | zero => exact simple spelled
  | succ depth =>
    rcases constantSpelling_succ.1 spelled with plain | container
    · exact simple plain
    · cases container with
      | list isOpening =>
        exact ⟨_, _, rfl, by rw [Lexeme.beginsConstant, isOpening]; decide⟩
      | map isOpening =>
        exact ⟨_, _, rfl, by rw [Lexeme.beginsConstant, isOpening]; decide⟩

/-- A place after a constant: as much is open as before, and a constant may end with the last lexeme. -/
structure Spot.Ended (before after : Spot) : Prop where
  /-- As much is open. -/
  depth : after.depth = before.depth
  /-- A constant may end. -/
  last : ∃ lexeme, after.last = some lexeme ∧ lexeme.endsConstant

/-- A lexeme that is no mark is a constant. -/
theorem Spot.ended_of_shape {lexeme : Lexeme} (noMark : ∀ symbol, lexeme.shape ≠ .mark symbol) :
    spot.Ended (spot.after [lexeme]) := by
  refine ⟨?_, lexeme, rfl, ?_⟩
  · show (spot.next lexeme).depth = spot.depth
    rw [Spot.next]
    split
    case h_5 => rfl
    all_goals next mark => exact absurd mark (noMark _)
  · rw [Lexeme.endsConstant]
    split
    case h_5 mark => exact absurd mark (noMark _)
    all_goals rfl

/-- A simple constant leaves open what was open. -/
theorem SimpleConstantSpelling.ended {value : ConstValue}
    (spelled : SimpleConstantSpelling parted lexemes value) : spot.Ended (spot.after lexemes) := by
  rcases spelled with isWord | shape | ⟨shape, -⟩ | ⟨shape, -⟩
  · exact Spot.ended_of_shape fun symbol => by simp [isWord.1]
  all_goals exact Spot.ended_of_shape fun symbol => by simp [shape]

/-- A simple constant whose number can be converted is parted. -/
theorem SimpleConstantSpelling.of_suits {value : ConstValue}
    (spelled : SimpleConstantSpelling false lexemes value) (admitted : spot.suits lexemes) :
    SimpleConstantSpelling true lexemes value ∧ spot.Ended (spot.after lexemes) := by
  refine ⟨?_, spelled.ended⟩
  cases spelled with
  | name isWord => exact .name isWord
  | literal shape => exact .literal shape
  | double shape => exact .double shape fun _ => admitted.2 _ (List.mem_singleton_self _)
  | int shape fits => exact .int shape fits

section Elements

variable {α : Type} {item item' : List Lexeme → α → Prop} {values : List α}

/-- Elements in brackets are parted if each of them stands apart from the one before it where no list
separator is between them. -/
theorem Elements.of_suits (spelled : Elements false item lexemes values)
    (begins : ∀ first value, item first value →
      ∃ lexeme others, first = lexeme :: others ∧ lexeme.beginsConstant)
    (each : ∀ spot : Spot, ∀ first value, item first value → 0 < spot.depth →
      spot.suits first → item' first value ∧ spot.Ended (spot.after first))
    (inside : 0 < spot.depth) (admitted : spot.suits lexemes) :
    Elements true item' lexemes values ∧ (spot.after lexemes).depth = spot.depth := by
  induction spelled generalizing spot with
  | nil => exact ⟨.nil, rfl⟩
  | @cons first separator others value values one isSeparator more _ ih =>
    rw [Spot.suits_append, Spot.suits_append] at admitted
    obtain ⟨firstAdmitted, -, othersAdmitted⟩ := admitted
    obtain ⟨one', ended⟩ := each spot first value one inside firstAdmitted
    have same : ((spot.after first).after separator).depth = spot.depth :=
      (Spot.after_flat isSeparator.flat _).trans ended.depth
    obtain ⟨more', depth⟩ := ih (same ▸ inside) othersAdmitted
    refine ⟨.cons one' isSeparator more' fun _ none => ?_, ?_⟩
    · -- Without a separator the next element stands right after this one.
      subst none
      cases more with
      | nil => simp [Apart]
      | cons next =>
        obtain ⟨lexeme, rest, rfl, begin⟩ := begins _ _ next
        obtain ⟨last, before, ends⟩ := ended.last
        have admits : (spot.after first).admits lexeme := by
          simp only [Spot.after_nil, List.cons_append, Spot.suits_cons] at othersAdmitted
          exact othersAdmitted.1.1
        have apart := Spot.apart_of_admits (ended.depth ▸ inside) before ends begin admits
        simpa [Apart] using apart
    · rw [Spot.after_append, Spot.after_append, depth, same]

end Elements

/-- The brackets of a list or a map open and close one. -/
theorem Spot.ended_of_brackets {opening closing : Lexeme} {elements : List Lexeme} {symbol : Mark}
    (isClosing : closing.IsMark symbol) (closes : symbol = .rightSquare ∨ symbol = .rightBrace)
    (depth : ((spot.next opening).after elements).depth = spot.depth + 1) :
    spot.Ended (spot.after (opening :: (elements ++ [closing]))) := by
  have shape : closing.shape = .mark symbol := isClosing
  refine ⟨?_, closing, by simp, ?_⟩
  · have closed : (spot.after (opening :: (elements ++ [closing]))).depth =
        ((spot.next opening).after elements).depth - 1 := by
      rcases closes with rfl | rfl <;> simp [Spot.next, shape]
    omega
  · rcases closes with rfl | rfl <;> simp [Lexeme.endsConstant, shape]

section Entries

variable {inner inner' : List Lexeme → ConstValue → Prop} {entry : ConstValue × ConstValue}

/-- An entry begins as its key does. -/
theorem EntrySpelling.begins (spelled : EntrySpelling inner lexemes entry)
    (begins : ∀ {lexemes value}, inner lexemes value →
      ∃ lexeme others, lexemes = lexeme :: others ∧ lexeme.beginsConstant) :
    ∃ lexeme others, lexemes = lexeme :: others ∧ lexeme.beginsConstant := by
  obtain ⟨key, -, -⟩ := spelled
  obtain ⟨lexeme, others, rfl, begin⟩ := begins key
  exact ⟨lexeme, _, rfl, begin⟩

/-- An entry leaves open what was open if its key and its value do. -/
theorem EntrySpelling.of_inner (spelled : EntrySpelling inner lexemes entry)
    (each : ∀ {spot : Spot} {lexemes value}, inner lexemes value → 0 < spot.depth →
      spot.suits lexemes → inner' lexemes value ∧ spot.Ended (spot.after lexemes))
    (inside : 0 < spot.depth) (admitted : spot.suits lexemes) :
    EntrySpelling inner' lexemes entry ∧ spot.Ended (spot.after lexemes) := by
  obtain @⟨keys, values, colon, _, _, key, isColon, value⟩ := spelled
  simp only [Spot.suits_append, Spot.suits_cons] at admitted
  obtain ⟨key', ended⟩ := each key inside admitted.1
  have same := (isColon.flat (by decide)).next_depth (spot.after keys)
  obtain ⟨value', ended'⟩ := each value (by rw [same, ended.depth]; exact inside) admitted.2.2
  refine ⟨.entry key' isColon value', ?_, ?_⟩
  · rw [Spot.after_append, Spot.after_cons, ended'.depth, same, ended.depth]
  · rw [Spot.after_append, Spot.after_cons]
    exact ended'.last

end Entries

/-- A constant whose lexemes stand apart is parted. -/
theorem ConstantSpelling.of_suits {value : ConstValue}
    (spelled : ConstantSpelling false depth lexemes value) (opens : spot.opensMap)
    (admitted : spot.suits lexemes) :
    ConstantSpelling true depth lexemes value ∧ spot.Ended (spot.after lexemes) := by
  induction depth generalizing lexemes value spot with
  | zero => exact SimpleConstantSpelling.of_suits spelled admitted
  | succ depth ih =>
    rcases constantSpelling_succ.1 spelled with simple | container
    · exact (simple.of_suits admitted).imp_left .inl
    have inner : ∀ {spot : Spot} {lexemes value}, ConstantSpelling false depth lexemes value →
        0 < spot.depth → spot.suits lexemes →
          ConstantSpelling true depth lexemes value ∧ spot.Ended (spot.after lexemes) :=
      fun spelled inside admitted => ih spelled (by simp [Spot.opensMap, inside]) admitted
    cases container with
    | @list opening closing elements values isOpening spelledElements isClosing =>
      have shape : opening.shape = .mark .leftSquare := isOpening
      have opened : (spot.next opening).depth = spot.depth + 1 := by simp [Spot.next, shape]
      simp only [Spot.suits_cons, Spot.suits_append] at admitted
      obtain ⟨parted, same⟩ := spelledElements.of_suits (fun _ _ one => one.begins)
        (fun _ _ _ one inside admitted => inner one inside admitted) (by omega) admitted.2.1
      exact ⟨.inr (.list isOpening parted isClosing),
        Spot.ended_of_brackets isClosing (.inl rfl) (same.trans opened)⟩
    | @map opening closing elements entries isOpening spelledElements isClosing =>
      have shape : opening.shape = .mark .leftBrace := isOpening
      have opened : (spot.next opening).depth = spot.depth + 1 := by simp [Spot.next, shape, opens]
      simp only [Spot.suits_cons, Spot.suits_append] at admitted
      obtain ⟨parted, same⟩ := spelledElements.of_suits
        (fun _ _ one => one.begins fun spelled => spelled.begins)
        (fun _ _ _ one inside admitted => one.of_inner inner inside admitted) (by omega) admitted.2.1
      exact ⟨.inr (.map isOpening parted isClosing),
        Spot.ended_of_brackets isClosing (.inr rfl) (same.trans opened)⟩

end Constants

section Members

variable {spot : Spot} {depth : Nat} {lexemes : List Lexeme}

/-- Items in a row outside of constants are parted if each of them is. -/
theorem Sequence.of_suits {α : Type} {item item' : List Lexeme → α → Prop} {values : List α}
    (spelled : Sequence item lexemes values)
    (each : ∀ spot : Spot, ∀ first value, item first value → spot.depth = 0 →
      spot.suits first → item' first value ∧ (spot.after first).depth = 0)
    (outside : spot.depth = 0) (admitted : spot.suits lexemes) :
    Sequence item' lexemes values ∧ (spot.after lexemes).depth = 0 := by
  induction spelled generalizing spot with
  | nil => exact ⟨.nil, outside⟩
  | cons first _ ih =>
    rw [Spot.suits_append] at admitted
    obtain ⟨first', closed⟩ := each spot _ _ first outside admitted.1
    obtain ⟨others', depth⟩ := ih closed admitted.2
    exact ⟨.cons first' others', by rw [Spot.after_append, depth]⟩

/-- A default value whose lexemes stand apart is parted. -/
theorem DefaultSpelling.of_suits {value : Option ConstValue}
    (spelled : DefaultSpelling false depth lexemes value) (outside : spot.depth = 0)
    (admitted : spot.suits lexemes) :
    DefaultSpelling true depth lexemes value ∧ (spot.after lexemes).depth = 0 := by
  cases spelled with
  | absent => exact ⟨.absent, outside⟩
  | @present equal _ _ isEqual spelledValue =>
    rw [Spot.suits_cons] at admitted
    have shape : equal.shape = .mark .equal := isEqual
    obtain ⟨value', ended⟩ :=
      spelledValue.of_suits (by simp [Spot.opensMap, shape]) admitted.2
    have same := (isEqual.flat (by decide)).next_depth spot
    exact ⟨.present isEqual value', by rw [Spot.after_cons, ended.depth, same, outside]⟩

/-- A field whose lexemes stand apart is parted. -/
theorem FieldSpelling.of_suits {field : Field Nat}
    (spelled : FieldSpelling false depth lexemes field) (outside : spot.depth = 0)
    (admitted : spot.suits lexemes) :
    FieldSpelling true depth lexemes field ∧ (spot.after lexemes).depth = 0 := by
  cases spelled with
  | @field ids words types defaults separator word _ _ _ _ _ _ id requiredness type isName apart value
      isSeparator begins =>
    simp only [Spot.suits_append, Spot.suits_cons] at admitted
    obtain ⟨-, -, -, -, admittedDefault, -⟩ := admitted
    have before : ((((spot.after ids).after words).after types).next word).depth = 0 := by
      rw [isName.flat.next_depth, Spot.after_flat type.flat, Spot.after_flat requiredness.flat,
        Spot.after_flat id.flat, outside]
    obtain ⟨value', closed⟩ := value.of_suits before admittedDefault
    refine ⟨.field id requiredness type isName apart value' isSeparator begins, ?_⟩
    simp only [Spot.after_append, Spot.after_cons]
    rw [Spot.after_flat isSeparator.flat, closed]

/-- Fields between round brackets whose lexemes stand apart are parted. -/
theorem FieldListSpelling.of_suits {fields : List (Field Nat)}
    (spelled : FieldListSpelling false depth lexemes fields) (outside : spot.depth = 0)
    (admitted : spot.suits lexemes) :
    FieldListSpelling true depth lexemes fields ∧ (spot.after lexemes).depth = 0 := by
  cases spelled with
  | @fields opening closing members _ isOpening members' isClosing =>
    simp only [Spot.suits_cons, Spot.suits_append] at admitted
    have before : (spot.next opening).depth = 0 :=
      ((isOpening.flat (by decide)).next_depth spot).trans outside
    obtain ⟨members', closed⟩ := members'.of_suits
      (fun _ _ _ one outside admitted => one.of_suits outside admitted) before admitted.2.1
    refine ⟨.fields isOpening members' isClosing, ?_⟩
    rw [Spot.after_cons, Spot.after_append, Spot.after_cons, Spot.after_nil,
      (isClosing.flat (by decide)).next_depth, closed]

/-- Exceptions whose lexemes stand apart are parted. -/
theorem ThrowsSpelling.of_suits {exceptions : Option (List (Field Nat))}
    (spelled : ThrowsSpelling false depth lexemes exceptions) (outside : spot.depth = 0)
    (admitted : spot.suits lexemes) :
    ThrowsSpelling true depth lexemes exceptions ∧ (spot.after lexemes).depth = 0 := by
  cases spelled with
  | absent => exact ⟨.absent, outside⟩
  | present isWord fields =>
    rw [Spot.suits_cons] at admitted
    obtain ⟨fields', closed⟩ :=
      fields.of_suits ((isWord.flat.next_depth spot).trans outside) admitted.2
    exact ⟨.present isWord fields', closed⟩

/-- A function whose lexemes stand apart is parted. -/
theorem FunctionSpelling.of_suits {function : FunctionDecl Nat}
    (spelled : FunctionSpelling false depth lexemes function) (outside : spot.depth = 0)
    (admitted : spot.suits lexemes) :
    FunctionSpelling true depth lexemes function ∧ (spot.after lexemes).depth = 0 := by
  cases spelled with
  | @function words results members throwing separator word _ _ _ _ _ _ oneway result isName apart
      parameters exceptions isSeparator begins =>
    simp only [Spot.suits_append, Spot.suits_cons] at admitted
    obtain ⟨-, -, -, admittedMembers, admittedThrows, -⟩ := admitted
    have before : (((spot.after words).after results).next word).depth = 0 := by
      rw [isName.flat.next_depth, Spot.after_flat result.flat, Spot.after_flat oneway.flat, outside]
    obtain ⟨parameters', closed⟩ := parameters.of_suits before admittedMembers
    obtain ⟨exceptions', closed'⟩ := exceptions.of_suits closed admittedThrows
    refine ⟨.function oneway result isName apart parameters' exceptions' isSeparator begins, ?_⟩
    simp only [Spot.after_append, Spot.after_cons]
    rw [Spot.after_flat isSeparator.flat, closed']

end Members

section Definitions

variable {spot : Spot} {depth : Nat} {lexemes : List Lexeme}

/-- A body that stands after a word is no map, and is closed after its members. -/
theorem Spot.after_body {header members : List Lexeme} {word opening closing : Lexeme} {name : String}
    (flat : ∀ lexeme ∈ header, lexeme.Flat) (last : (spot.after header).last = some word)
    (isName : word.IsWord name) (isOpening : opening.IsMark .leftBrace)
    (isClosing : closing.IsMark .rightBrace) (outside : spot.depth = 0)
    (admitted : spot.suits (header ++ opening :: (members ++ [closing]))) :
    ((spot.after header).next opening).depth = 0 ∧
      ((spot.after header).next opening).suits members ∧
        ((((spot.after header).next opening).after members).depth = 0 →
          (spot.after (header ++ opening :: (members ++ [closing]))).depth = 0) := by
  have shape : opening.shape = .mark .leftBrace := isOpening
  have shape' : closing.shape = .mark .rightBrace := isClosing
  have before : (spot.after header).depth = 0 := (Spot.after_flat flat spot).trans outside
  have noMap : (spot.after header).opensMap = false := by
    simp [Spot.opensMap, before, last, isName.1]
  simp only [Spot.suits_append, Spot.suits_cons] at admitted
  refine ⟨?_, admitted.2.2.1, fun closed => ?_⟩
  · simp [Spot.next, shape, noMap, before]
  · rw [Spot.after_append, Spot.after_cons, Spot.after_append]
    simp [Spot.next, shape'] at closed ⊢
    omega

/-- A definition whose lexemes stand apart is parted. -/
theorem DefinitionSpelling.of_suits {definition : Definition Nat}
    (spelled : DefinitionSpelling false depth lexemes definition) (outside : spot.depth = 0)
    (admitted : spot.suits lexemes) :
    DefinitionSpelling true depth lexemes definition ∧ (spot.after lexemes).depth = 0 := by
  -- A definition without a body and without a constant consists of flat lexemes.
  have done : (∀ lexeme ∈ lexemes, lexeme.Flat) → (spot.after lexemes).depth = 0 :=
    fun flat => (Spot.after_flat flat spot).trans outside
  cases spelled with
  | inclusion isKeyword shape apart =>
    refine ⟨.inclusion isKeyword shape apart, done (flat_pair isKeyword.flat ?_)⟩
    exact Lexeme.flat_of_shape shape nofun nofun
  | cppInclusion isKeyword shape apart =>
    refine ⟨.cppInclusion isKeyword shape apart, done (flat_pair isKeyword.flat ?_)⟩
    exact Lexeme.flat_of_shape shape nofun nofun
  | @space keyword mark word _ _ isKeyword scope isName apart =>
    cases scope with
    | star isMark =>
      have shape : mark.shape = .mark .star := isMark
      simp only [Spot.suits_cons] at admitted
      have markApart : mark.apart := by simpa [Spot.admits, shape] using admitted.2.1.1
      refine ⟨.space isKeyword (.star isMark fun _ => markApart) isName apart, done ?_⟩
      simp only [List.forall_mem_cons]
      exact ⟨isKeyword.flat, isMark.flat (by decide), isName.flat, by simp⟩
    | word isWord mem markApart =>
      refine ⟨.space isKeyword (.word isWord mem markApart) isName apart, done ?_⟩
      simp only [List.forall_mem_cons]
      exact ⟨isKeyword.flat, isWord.flat, isName.flat, by simp⟩
  | typedef isKeyword type apart isName apart' isSeparator =>
    refine ⟨.typedef isKeyword type apart isName apart' isSeparator, done ?_⟩
    simp only [List.forall_mem_cons, List.forall_mem_append]
    exact ⟨isKeyword.flat, type.1.flat, isName.flat, isSeparator.flat⟩
  | @const keyword word equal types values separator _ _ _ isKeyword type apart isName apart' isEqual
      value isSeparator =>
    simp only [Spot.suits_cons, Spot.suits_append] at admitted
    have shape : equal.shape = .mark .equal := isEqual
    have before : ((((spot.next keyword).after types).next word).next equal).depth = 0 := by
      rw [(isEqual.flat (by decide)).next_depth, isName.flat.next_depth, Spot.after_flat type.flat,
        isKeyword.flat.next_depth, outside]
    obtain ⟨value', ended⟩ :=
      value.of_suits (by simp [Spot.opensMap, shape]) admitted.2.2.2.2.1
    refine ⟨.const isKeyword type apart isName apart' isEqual value' isSeparator, ?_⟩
    simp only [Spot.after_cons, Spot.after_append]
    rw [Spot.after_flat isSeparator.flat, ended.depth, before]
  | @enum keyword word opening closing members _ _ isKeyword isName apart isOpening values isClosing =>
    have flat : ∀ lexeme ∈ [keyword, word], lexeme.Flat :=
      flat_pair isKeyword.flat isName.flat
    obtain ⟨before, -, closed⟩ :=
      Spot.after_body flat rfl isName isOpening isClosing outside admitted
    refine ⟨.enum isKeyword isName apart isOpening values isClosing, closed ?_⟩
    rw [Spot.after_flat (flat_of_enumValues values), before]
  | @record keyword word opening closing members _ _ _ isKeyword isName apart isOpening fields
      isClosing =>
    have flat : ∀ lexeme ∈ [keyword, word], lexeme.Flat :=
      flat_pair isKeyword.flat isName.flat
    obtain ⟨before, admittedFields, closed⟩ :=
      Spot.after_body flat rfl isName isOpening isClosing outside admitted
    obtain ⟨fields', depth⟩ := fields.of_suits
      (fun _ _ _ one outside admitted => one.of_suits outside admitted) before admittedFields
    exact ⟨.record isKeyword isName apart isOpening fields' isClosing, closed depth⟩
  | @service keyword word opening closing bases members _ base _ isKeyword isName apart isBase
      isOpening functions isClosing =>
    have flat : ∀ lexeme ∈ keyword :: word :: bases, lexeme.Flat :=
      List.forall_mem_cons.2 ⟨isKeyword.flat, List.forall_mem_cons.2 ⟨isName.flat, isBase.flat⟩⟩
    obtain ⟨last, name, before, isWord⟩ : ∃ last name,
        (spot.after (keyword :: word :: bases)).last = some last ∧ last.IsWord name := by
      cases isBase with
      | absent => exact ⟨word, _, rfl, isName⟩
      | present _ isExtended => exact ⟨_, _, rfl, isExtended⟩
    obtain ⟨before, admittedFunctions, closed⟩ :=
      Spot.after_body flat before isWord isOpening isClosing outside admitted
    obtain ⟨functions', depth⟩ := functions.of_suits
      (fun _ _ _ one outside admitted => one.of_suits outside admitted) before admittedFunctions
    exact ⟨.service isKeyword isName apart isBase isOpening functions' isClosing, closed depth⟩

/-- What lexemes spell that stand apart and can be converted they spell parted. -/
theorem DefinitionsSpelling.of_standApart {definitions : List (Definition Nat)}
    (spelled : DefinitionsSpelling false depth lexemes definitions) (apart : standApart lexemes)
    (short : ∀ lexeme ∈ lexemes, lexeme.converts) :
    DefinitionsSpelling true depth lexemes definitions :=
  (Sequence.of_suits spelled
    (fun _ _ _ one outside admitted => one.of_suits outside admitted) rfl ⟨apart, short⟩).1

end Definitions

section First

variable {parted : Bool} {depth : Nat} {first : Lexeme} {lexemes others : List Lexeme}
  {definitions : List (Definition Nat)}

/-- A definition is spelled alike whether its first lexeme is apart from what is before it. -/
theorem DefinitionSpelling.of_first {definition : Definition Nat} (apart : Bool)
    (spelled : DefinitionSpelling parted depth (first :: others) definition) :
    DefinitionSpelling parted depth ({ first with apart := apart } :: others) definition := by
  cases spelled with
  | inclusion isWord shape apart => exact .inclusion isWord shape apart
  | cppInclusion isWord shape apart => exact .cppInclusion isWord shape apart
  | space isKeyword scope isWord apart => exact .space isKeyword scope isWord apart
  | typedef isKeyword type apart isWord apart' separator =>
    exact .typedef isKeyword type apart isWord apart' separator
  | const isKeyword type apart isWord apart' equal value separator =>
    exact .const isKeyword type apart isWord apart' equal value separator
  | enum isKeyword isWord apart opening members closing =>
    exact .enum isKeyword isWord apart opening members closing
  | record isKeyword isWord apart opening members closing =>
    exact .record isKeyword isWord apart opening members closing
  | service isKeyword isWord apart bases opening members closing =>
    exact .service isKeyword isWord apart bases opening members closing

/-- Definitions are spelled alike whether their first lexeme is apart from what is before it. -/
theorem DefinitionsSpelling.of_first (apart : Bool)
    (spelled : DefinitionsSpelling parted depth (first :: others) definitions) :
    DefinitionsSpelling parted depth ({ first with apart := apart } :: others) definitions := by
  generalize same : first :: others = lexemes at spelled
  cases spelled with
  | nil => cases same
  | @cons part rest definition definitions one more =>
    obtain ⟨head, part, rfl⟩ := List.exists_cons_of_ne_nil one.ne_nil
    rw [List.cons_append, List.cons.injEq] at same
    obtain ⟨rfl, rfl⟩ := same
    exact .cons (one.of_first apart) more

/-- Lexemes that are apart may stand one after the other. -/
theorem Spot.admitsAll_of_apart {spot : Spot} (apart : ∀ lexeme ∈ lexemes, lexeme.apart) :
    spot.admitsAll lexemes := by
  induction lexemes generalizing spot with
  | nil => rfl
  | cons lexeme lexemes ih =>
    obtain ⟨first, others⟩ := List.forall_mem_cons.1 apart
    exact Spot.admitsAll_cons.2 ⟨by simp [Spot.admits, first], ih others⟩

/-- Definitions are parted if all of their lexemes but the first are apart and can be converted. -/
theorem DefinitionsSpelling.of_apart
    (spelled : DefinitionsSpelling false depth lexemes definitions)
    (apart : ∀ lexeme ∈ lexemes.tail, lexeme.apart) (short : ∀ lexeme ∈ lexemes, lexeme.converts) :
    DefinitionsSpelling true depth lexemes definitions := by
  cases lexemes with
  | nil => exact spelled.of_standApart rfl short
  | cons first others =>
    obtain ⟨short, shorts⟩ := List.forall_mem_cons.1 short
    have all : ∀ lexeme ∈ { first with apart := true } :: others, lexeme.apart :=
      List.forall_mem_cons.2 ⟨rfl, apart⟩
    have parted := (spelled.of_first true).of_standApart (Spot.admitsAll_of_apart all)
      (List.forall_mem_cons.2 ⟨short, shorts⟩)
    exact parted.of_first first.apart

end First

end ThriftIdl
