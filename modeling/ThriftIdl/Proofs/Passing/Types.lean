import ThriftIdl.Proofs.Grammar.Depth
import ThriftIdl.Proofs.Passing.Basic
import ThriftIdl.Token.Grammar

/-!
# Types are passed

A type that is spelled is passed if none of the names in it is a keyword that begins a type
(`passes_type`).
-/
namespace ThriftIdl

open TokenReader

/-- The kind of the token that a type begins with. -/
def FieldType.opening : FieldType → Terminal
  | .base type => .keyword (.base type)
  | .map _ _ => .keyword .map
  | .set _ => .keyword .set
  | .list _ => .keyword .list
  | .named _ => .identifier

/-- What may follow a type. After a list it may be a type of another language. -/
def FieldType.follows : FieldType → List Expected
  | .list _ => [Follow.afterListType, Follow.afterCppType]
  | .base _ | .map _ _ | .set _ | .named _ => [Follow.afterType]

section CppTypes

variable {terminal next : Terminal} {cppType others : List Lexeme} {before : Ahead}

/-- What is ahead of a type of another language, or of what follows if there is none. -/
theorem exists_opens_cppType (spelled : CppTypeSpelling cppType) (next : Terminal) :
    ∃ terminal, (cppType = [] → terminal = next) ∧ (cppType ≠ [] → terminal = .keyword .cppType) ∧
      ∀ ⦃follow others⦄, .keyword .cppType ∈ follow → (cppType = [] → Opens follow next others) →
        Opens follow terminal (cppType ++ others) := by
  cases spelled with
  | absent => exact ⟨next, fun _ => rfl, fun some => absurd rfl some, fun _ _ _ opens => opens rfl⟩
  | present isWord =>
    exact ⟨.keyword .cppType, fun none => absurd none (by simp), fun _ => rfl,
      fun _ _ mem _ => opens_keyword .cppType isWord mem⟩

/-- A type of another language is passed if there is one. -/
theorem passes_leadingCppType (spelled : CppTypeSpelling cppType)
    (leads : Leads terminal (cppType ++ others) before) (absent : cppType = [] → terminal = next)
    (present : cppType ≠ [] → terminal = .keyword .cppType)
    (opens : Opens Follow.afterCppType next others) :
    Passes leadingCppType before next others := by
  cases spelled with
  | absent =>
    obtain rfl := absent rfl
    exact passes_takes_bind_of_ne leads (opens.ne (by decide) (by simp)) (passes_pure leads)
  | present isWord shape _ =>
    obtain rfl := present (by simp)
    refine passes_takes_bind leads (opens_literal shape (by decide)) fun _ left => ?_
    exact passes_take_bind left opens fun _ left => passes_pure left

end CppTypes

section Types

variable {inner : TokenReader FieldType} {spelling : List Lexeme → FieldType → Prop}
  {lexemes others : List Lexeme} {type : FieldType} {terminal : Terminal} {before : Ahead}
  {depth : Nat}

/-- A base type or a name is ahead of a type of one lexeme. -/
theorem opens_plainType {expected : Expected} (spelled : TypeSpelling 0 lexemes type)
    (less : Follow.definitionType ⊆ expected)
    (named : ∀ name, type = .named name → .identifier ∈ expected ∧ Free expected name) :
    Opens expected type.opening (lexemes ++ others) := by
  rcases spelled with base | name
  · cases base with
    | @base _ base isWord =>
      have mem : .keyword (.base base) ∈ Follow.definitionType := by cases base <;> decide
      exact opens_keyword (.base base) isWord (less mem)
  · cases name with
    | named isWord _ => exact opens_name isWord (named _ rfl).2 (named _ rfl).1

/-- The keyword of a container is ahead of its type. -/
theorem opens_containerType {expected : Expected}
    (spelled : ContainerTypeSpelling spelling lexemes type)
    (less : Follow.definitionType ⊆ expected) :
    Opens expected type.opening (lexemes ++ others) := by
  cases spelled with
  | map isWord => exact opens_keyword .map isWord (less (by decide))
  | set isWord => exact opens_keyword .set isWord (less (by decide))
  | list isWord => exact opens_keyword .list isWord (less (by decide))

/-- The token that a type begins with is ahead of the type, wherever the keywords of types are
expected, and the name, if the type is one, is expected and no keyword. -/
theorem opens_anyType {expected : Expected} (spelled : TypeSpelling depth lexemes type)
    (less : Follow.definitionType ⊆ expected)
    (named : ∀ name, type = .named name → .identifier ∈ expected ∧ Free expected name) :
    Opens expected type.opening (lexemes ++ others) := by
  cases depth with
  | zero => exact opens_plainType spelled less named
  | succ depth =>
    rcases typeSpelling_succ.1 spelled with plain | container
    · exact opens_plainType plain less named
    · exact opens_containerType container less

/-- The token that a type begins with is ahead of the type, wherever a type is expected and its name,
if it is one, is no keyword. -/
theorem opens_type {expected : Expected} (spelled : TypeSpelling depth lexemes type)
    (less : Follow.type ⊆ expected) (free : ∀ name, type = .named name → Free expected name) :
    Opens expected type.opening (lexemes ++ others) :=
  opens_anyType spelled (fun _ mem => less (List.mem_append_left _ mem))
    fun name same => ⟨less (by decide), free name same⟩

/-- The token that a type begins with is ahead of the type, where a name is no type. -/
theorem opens_definitionType (spelled : DefinitionTypeSpelling depth lexemes type) :
    Opens Follow.definitionType type.opening (lexemes ++ others) :=
  opens_anyType spelled.1 (List.Subset.refl _) fun name same => absurd same (spelled.2 name)

/-- The token that a settled type begins with is ahead of the type where a type is expected. -/
theorem FieldType.Settled.opens (settled : type.Settled) (spelled : TypeSpelling depth lexemes type) :
    Opens Follow.type type.opening (lexemes ++ others) := by
  refine opens_type spelled (List.Subset.refl _) ?_
  rintro name rfl
  exact settled

/-- Inner types that are shorter than a whole are passed. -/
def PassesTypes (inner : TokenReader FieldType) (depth length : Nat) : Prop :=
  ∀ ⦃lexemes others type terminal before⦄, TypeSpelling depth lexemes type → type.Settled →
    lexemes.length < length → Leads type.opening (lexemes ++ others) before →
    (∀ follow ∈ type.follows, Opens follow terminal others) → Passes inner before terminal others

/-- What may follow a type is one of these. -/
theorem mem_follows {follow : Expected} (mem : follow ∈ type.follows) :
    follow ∈ [Follow.afterListType, Follow.afterCppType, Follow.afterType] := by
  cases type <;> simp only [FieldType.follows, List.mem_cons, List.not_mem_nil] at mem ⊢ <;> tauto

/-- What closes a type may follow it. -/
theorem opens_closing {symbol : Mark} {lexeme : Lexeme} (isMark : lexeme.IsMark symbol)
    (closes : symbol = .comma ∨ symbol = .moreThan) :
    ∀ follow ∈ type.follows, Opens follow (.mark symbol) (lexeme :: others) := by
  intro follow mem
  refine opens_mark isMark ?_
  have all : ∀ follow ∈ [Follow.afterListType, Follow.afterCppType, Follow.afterType],
      .mark .comma ∈ follow ∧ .mark .moreThan ∈ follow := by decide
  rcases closes with rfl | rfl
  · exact (all follow (mem_follows mem)).1
  · exact (all follow (mem_follows mem)).2

/-- The keyword of a container is passed with its bracket and with what may stand between them. -/
theorem passes_opening_bind {α : Type} {next : List Char → TokenReader α} {word less : Lexeme}
    {cppType inside : List Lexeme} {first start : Terminal} (cpp : CppTypeSpelling cppType)
    (isLess : less.IsMark .lessThan) (leads : Leads first (word :: (cppType ++ less :: inside)) before)
    (opens : Opens Follow.type start inside)
    (passes : ∀ after, Leads start inside after → Passes (next less.text) after terminal others) :
    Passes (advance [.keyword .cppType, .mark .lessThan] >>= fun _ => leadingCppType >>= fun _ =>
      take (.mark .lessThan) Follow.type >>= next) before terminal others := by
  obtain ⟨_, absent, present, starts⟩ := exists_opens_cppType cpp (.mark .lessThan)
  refine passes_advance_bind leads
    (starts (by decide) fun _ => opens_mark isLess (by decide)) fun _ left => ?_
  refine (passes_leadingCppType cpp left absent present
    (opens_mark isLess (by decide))).bind fun _ _ left => ?_
  exact passes_take_bind left opens passes

/-- A container type is passed if its inner types are. -/
theorem passes_container {named : Bool} (passes : PassesTypes inner depth lexemes.length)
    (spelled : ContainerTypeSpelling (TypeSpelling depth) lexemes type) (settled : type.Settled)
    (leads : Leads type.opening (lexemes ++ others) before)
    (opens : ∀ follow ∈ type.follows, Opens follow terminal others) :
    Passes (typeOf named inner) before terminal others := by
  refine passes_next_bind leads ?_
  cases spelled with
  | @map word less comma more cppType keys values key value _ cpp isLess spelledKey isComma spelledValue
      isMore =>
    obtain ⟨settledKey, settledValue⟩ := settled
    simp only [List.append_assoc, List.cons_append] at leads
    refine passes_opening_bind cpp isLess leads (settledKey.opens spelledKey) fun _ left => ?_
    refine (passes spelledKey settledKey (by simp; omega) left
      (opens_closing isComma (.inl rfl))).bind fun _ _ left => ?_
    refine passes_take_bind left (settledValue.opens spelledValue) fun _ left => ?_
    refine (passes spelledValue settledValue (by simp; omega) left
      (opens_closing isMore (.inr rfl))).bind fun _ _ left => ?_
    exact passes_take_bind left (opens _ (by simp [FieldType.follows])) fun _ left =>
      passes_pure left
  | @set word less more cppType elements element _ cpp isLess spelledElement isMore =>
    have settledElement : element.Settled := settled
    simp only [List.append_assoc, List.cons_append] at leads
    refine passes_opening_bind cpp isLess leads (settledElement.opens spelledElement) fun _ left => ?_
    refine (passes spelledElement settledElement (by simp; omega) left
      (opens_closing isMore (.inr rfl))).bind fun _ _ left => ?_
    exact passes_take_bind left (opens _ (by simp [FieldType.follows])) fun _ left =>
      passes_pure left
  | @list word less more elements cppType element _ isLess spelledElement isMore cpp =>
    have settledElement : element.Settled := settled
    obtain ⟨trailing, absent, present, ends⟩ := exists_opens_cppType cpp terminal
    simp only [List.append_assoc, List.cons_append] at leads
    refine passes_advance_bind leads (opens_mark isLess (by decide)) fun _ left => ?_
    refine passes_take_bind left (settledElement.opens spelledElement) fun _ left => ?_
    refine (passes spelledElement settledElement (by simp; omega) left
      (opens_closing isMore (.inr rfl))).bind fun _ _ left => ?_
    refine passes_take_bind left
      (ends (by decide) fun _ => opens _ (by simp [FieldType.follows])) fun _ left => ?_
    exact (passes_leadingCppType cpp left absent present
      (opens _ (by simp [FieldType.follows]))).bind fun _ _ left => passes_pure left

/-- A type is passed if its inner types are, and if it is no name where a name is no type. -/
theorem passes_typeOf {named : Bool} (passes : PassesTypes inner depth lexemes.length)
    (spelled : TypeSpelling (depth + 1) lexemes type) (settled : type.Settled)
    (admitted : named = false → ∀ name, type ≠ .named name)
    (leads : Leads type.opening (lexemes ++ others) before)
    (opens : ∀ follow ∈ type.follows, Opens follow terminal others) :
    Passes (typeOf named inner) before terminal others := by
  rcases typeSpelling_succ.1 spelled with (base | name) | container
  · cases base with
    | base isWord =>
      refine passes_next_bind leads ?_
      exact passes_advance_bind leads (opens _ (by simp [FieldType.follows])) fun _ left =>
        passes_pure left
  · cases name with
    | named isWord _ =>
      cases named with
      | false => exact absurd rfl (admitted rfl _)
      | true =>
        refine passes_next_bind leads ?_
        exact passes_advance_bind leads (opens _ (by simp [FieldType.follows])) fun _ left =>
          passes_pure left
  · exact passes_container passes container settled leads opens

/-- Types are passed within as many levels as they have lexemes. -/
theorem passesTypes_typeWithin (levels : Nat) :
    PassesTypes (typeWithin levels) depth (levels + 1) := by
  induction levels generalizing depth with
  | zero =>
    intro lexemes others type terminal before spelled _ short
    exact absurd (List.length_eq_zero_iff.1 (by omega)) spelled.ne_nil
  | succ levels ih =>
    intro lexemes others type terminal before spelled settled short leads opens
    refine passes_typeOf ?_ (spelled.mono (Nat.le_succ _)) settled (by simp) leads opens
    intro part others' inner terminal' before' spelled' settled' shorter
    exact ih spelled' settled' (by omega)

/-- A type that is spelled is passed if none of its names is a keyword that begins a type. -/
theorem passes_type (spelled : TypeSpelling depth lexemes type) (settled : type.Settled)
    (leads : Leads type.opening (lexemes ++ others) before)
    (opens : ∀ follow ∈ type.follows, Opens follow terminal others) :
    Passes TokenReader.type before terminal others := by
  refine passes_get_bind (passesTypes_typeWithin _ spelled settled ?_ leads opens)
  have enough := leads.length_le
  rw [List.length_append] at enough
  omega

/-- A type that may get a second name is passed if none of its names is a keyword that begins a
type. -/
theorem passes_definitionType (spelled : DefinitionTypeSpelling depth lexemes type)
    (settled : type.Settled) (leads : Leads type.opening (lexemes ++ others) before)
    (opens : ∀ follow ∈ type.follows, Opens follow terminal others) :
    Passes definitionType before terminal others := by
  refine passes_get_bind ?_
  have enough := leads.length_le
  rw [List.length_append] at enough
  refine passes_typeOf ?_ (spelled.1.mono (Nat.le_succ _)) settled (fun _ => spelled.2) leads opens
  intro part others' inner terminal' before' spelled' settled' shorter
  exact passesTypes_typeWithin _ spelled' settled' (by omega)

end Types

end ThriftIdl
