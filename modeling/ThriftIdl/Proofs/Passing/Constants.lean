import ThriftIdl.Proofs.Passing.Types

/-!
# Constants are passed

A constant that is spelled is passed if no element of a list and no key of a map, but for the first,
is a name that is a keyword after a list separator (`passes_constant`).
-/
namespace ThriftIdl

open TokenReader

/-- The kind of the token that a constant begins with. -/
def ConstValue.opening : ConstValue → Terminal
  | .name _ => .identifier
  | .literal _ => .literal
  | .int _ => .integer
  | .double _ => .double
  | .list _ => .mark .leftSquare
  | .map _ => .mark .leftBrace

section Constants

variable {inner : TokenReader ConstValue} {lexemes others : List Lexeme} {value : ConstValue}
  {terminal : Terminal} {before : Ahead} {parted : Bool} {depth length : Nat} {expected : Expected}

/-- The token that a constant begins with is ahead of the constant, wherever a constant is expected
and the constant is no name that is a keyword there. -/
theorem opens_constant (spelled : ConstantSpelling parted depth lexemes value)
    (less : Follow.constant ⊆ expected) (free : ∀ name, value = .name name → Free expected name) :
    Opens expected value.opening (lexemes ++ others) := by
  have plain : SimpleConstantSpelling parted lexemes value →
      Opens expected value.opening (lexemes ++ others) := by
    intro simple
    cases simple with
    | name isWord => exact opens_name isWord (free _ rfl) (less (by decide))
    | literal shape => exact opens_literal shape (less (by decide))
    | double shape => exact opens_double shape (less (by decide))
    | int shape => exact opens_integer shape (less (by decide))
  cases depth with
  | zero => exact plain spelled
  | succ depth =>
    rcases constantSpelling_succ.1 spelled with simple | container
    · exact plain simple
    · cases container with
      | list isOpening => exact opens_mark isOpening (less (by decide))
      | map isOpening => exact opens_mark isOpening (less (by decide))

/-- A constant is ahead where a constant is expected and no keywords are. -/
theorem opens_constant_of_no_keyword (spelled : ConstantSpelling parted depth lexemes value)
    (less : Follow.constant ⊆ expected) (none : expected.filter Terminal.isKeyword = []) :
    Opens expected value.opening (lexemes ++ others) :=
  opens_constant spelled less fun name _ => free_of_no_keyword name none

/-- A constant that is no keyword after a list separator is ahead after an element, whether there is a
list separator or none. -/
theorem ConstValue.Later.opens (later : value.Later)
    (spelled : ConstantSpelling parted depth lexemes value) :
    ∀ follow ∈ [Follow.afterConstant, Follow.afterSeparator],
      Opens follow value.opening (lexemes ++ others) := by
  have all : ∀ follow ∈ [Follow.afterConstant, Follow.afterSeparator],
      Follow.constant ⊆ follow ∧ follow.filter Terminal.isKeyword ⊆ Follow.afterSeparator := by
    decide
  intro follow mem
  refine opens_constant spelled (all follow mem).1 ?_
  rintro name rfl
  have free : Free Follow.afterSeparator name := later
  exact free.mono (all follow mem).2

/-- Constants that are shorter than a whole are passed. -/
def PassesConstants (inner : TokenReader ConstValue) (parted : Bool) (depth length : Nat) : Prop :=
  ∀ ⦃lexemes others value terminal before⦄, ConstantSpelling parted depth lexemes value →
    value.Clear → lexemes.length < length → Leads value.opening (lexemes ++ others) before →
    Opens Follow.afterConstant terminal others → Passes inner before terminal others

/-- A list of constants is passed if its elements are. -/
theorem passes_listRest {closing : Lexeme} {values : List ConstValue}
    (passes : PassesConstants inner parted depth length) (short : lexemes.length < length)
    (spelled : Elements parted (ConstantSpelling parted depth) lexemes values)
    (clear : (ConstValue.list values).Clear) (isClosing : closing.IsMark .rightSquare)
    (leads : Leads (values.head?.elim (.mark .rightSquare) ConstValue.opening)
      (lexemes ++ closing :: others) before)
    (opens : Opens Follow.afterConstant terminal others) :
    Passes (listRest inner) before terminal others := by
  obtain ⟨later, each⟩ := clear
  rw [clearValues_iff] at each
  refine (passes_items [Follow.afterConstant, Follow.afterSeparator] spelled.sequence
    ?_ ?_ ?_ ?_ ?_ leads).bind fun _ _ left => ?_
  · rintro _ value ⟨first, separator, rfl, one, -⟩
    simp [one.ne_nil]
  · rintro _ others value before terminal ⟨first, separator, rfl, one, isSeparator⟩ mem shorter
      leads opens
    obtain ⟨middle, absent, starts⟩ := exists_opens_separator isSeparator terminal
    rw [List.length_append] at shorter
    rw [List.append_assoc] at leads
    refine (passes one (each value mem) (by omega) leads
      (starts (by decide) fun _ => opens _ (by simp))).bind fun _ _ left => ?_
    exact (passes_takeSeparator isSeparator left absent (opens _ (by simp))).bind fun _ _ left =>
      passes_pure left
  · rintro _ others value ⟨first, separator, rfl, one, -⟩ mem follow among
    rw [List.append_assoc]
    exact (later value mem).opens one follow among
  · intro value mem
    cases value <;> simp [ConstValue.opening]
  · intro follow mem
    exact opens_mark isClosing (by revert follow; decide)
  · exact passes_advance_bind left opens fun _ left => passes_pure left

/-- A map of constants is passed if its keys and values are. -/
theorem passes_mapRest {closing : Lexeme} {entries : List (ConstValue × ConstValue)}
    (passes : PassesConstants inner parted depth length) (short : lexemes.length < length)
    (spelled : Elements parted (EntrySpelling (ConstantSpelling parted depth)) lexemes entries)
    (clear : (ConstValue.map entries).Clear) (isClosing : closing.IsMark .rightBrace)
    (leads : Leads (entries.head?.elim (.mark .rightBrace) (ConstValue.opening ·.1))
      (lexemes ++ closing :: others) before)
    (opens : Opens Follow.afterConstant terminal others) :
    Passes (mapRest inner) before terminal others := by
  obtain ⟨later, each⟩ := clear
  rw [clearEntries_iff] at each
  refine (passes_items [Follow.afterConstant, Follow.afterSeparator] spelled.sequence
    ?_ ?_ ?_ ?_ ?_ leads).bind fun _ _ left => ?_
  · rintro _ _ ⟨_, separator, rfl, ⟨key, isColon, value⟩, -⟩
    simp
  · rintro _ others _ before terminal ⟨_, separator, rfl, @⟨keys, values, colon, key, value,
      spelledKey, isColon, spelledValue⟩, isSeparator⟩ mem shorter leads opens
    obtain ⟨clearKey, clearValue⟩ := each _ mem
    obtain ⟨middle, absent, starts⟩ := exists_opens_separator isSeparator terminal
    simp only [List.length_append, List.length_cons] at shorter
    simp only [List.append_assoc, List.cons_append] at leads
    refine (passes spelledKey clearKey (by omega) leads
      (opens_mark isColon (by decide))).bind fun _ _ left => ?_
    refine passes_take_bind left
      (opens_constant_of_no_keyword spelledValue (by decide) (by decide)) fun _ left => ?_
    refine (passes spelledValue clearValue (by omega) left
      (starts (by decide) fun _ => opens _ (by simp))).bind fun _ _ left => ?_
    exact (passes_takeSeparator isSeparator left absent (opens _ (by simp))).bind fun _ _ left =>
      passes_pure left
  · rintro _ others _ ⟨_, separator, rfl, @⟨keys, values, colon, key, value, spelledKey, -, -⟩, -⟩
      mem follow among
    rw [List.append_assoc, List.append_assoc]
    exact (later _ mem).opens spelledKey follow among
  · intro entry mem
    cases same : entry.1 <;> simp [ConstValue.opening]
  · intro follow mem
    exact opens_mark isClosing (by revert follow; decide)
  · exact passes_advance_bind left opens fun _ left => passes_pure left

/-- What is ahead of elements is the first of them, or what closes them. -/
theorem Elements.opens {α : Type} {item : List Lexeme → α → Prop} {values : List α}
    {opening : α → Terminal} {closing : Terminal} (spelled : Elements parted item lexemes values)
    (first : ∀ ⦃first others value⦄, item first value →
      Opens expected (opening value) (first ++ others))
    (ends : Opens expected closing others) :
    Opens expected (values.head?.elim closing opening) (lexemes ++ others) := by
  refine spelled.sequence.opens ?_ ends
  rintro _ others value ⟨part, separator, rfl, one, -⟩ -
  rw [List.append_assoc]
  exact first one

/-- A constant is passed if its inner constants are. -/
theorem passes_constantOf (passes : PassesConstants inner parted depth lexemes.length)
    (spelled : ConstantSpelling parted (depth + 1) lexemes value) (clear : value.Clear)
    (leads : Leads value.opening (lexemes ++ others) before)
    (opens : Opens Follow.afterConstant terminal others) :
    Passes (constantOf inner) before terminal others := by
  rcases constantSpelling_succ.1 spelled with simple | container
  · cases simple with
    | name =>
      refine passes_next_bind leads ?_
      exact passes_advance_bind leads opens fun _ left => passes_pure left
    | literal =>
      refine passes_next_bind leads ?_
      exact passes_advance_bind leads opens fun _ left => passes_pure left
    | double =>
      refine passes_next_bind leads ?_
      exact passes_advance_bind leads opens fun _ left => passes_pure left
    | int _ fits =>
      refine passes_next_bind leads ?_
      refine passes_advance_bind leads opens fun _ left => ?_
      exact (passes_int64 fits left).bind fun _ _ left => passes_pure left
  · refine passes_next_bind leads ?_
    cases container with
    | @list _ closing parts values isOpening elements isClosing =>
      simp only [List.cons_append, List.append_assoc, List.nil_append] at leads
      have starts : Opens (.mark .rightSquare :: Follow.constant)
          (values.head?.elim (.mark .rightSquare) ConstValue.opening)
          (parts ++ closing :: others) :=
        elements.opens (fun _ _ _ one => opens_constant_of_no_keyword one (by decide) (by decide))
          (opens_mark isClosing (by decide))
      refine passes_advance_bind leads starts fun _ left => ?_
      refine passes_listRest passes ?_ elements clear isClosing left opens
      simp only [List.length_append, List.length_cons]
      omega
    | @map _ closing parts entries isOpening elements isClosing =>
      simp only [List.cons_append, List.append_assoc, List.nil_append] at leads
      have starts : Opens (.mark .rightBrace :: Follow.constant)
          (entries.head?.elim (.mark .rightBrace) (ConstValue.opening ·.1))
          (parts ++ closing :: others) := by
        refine elements.opens ?_ (opens_mark isClosing (by decide))
        rintro _ others _ ⟨spelledKey, -, -⟩
        rw [List.append_assoc]
        exact opens_constant_of_no_keyword spelledKey (by decide) (by decide)
      refine passes_advance_bind leads starts fun _ left => ?_
      refine passes_mapRest passes ?_ elements clear isClosing left opens
      simp only [List.length_append, List.length_cons]
      omega

/-- Constants are passed within as many levels as they have lexemes. -/
theorem passesConstants_constantWithin (levels : Nat) :
    PassesConstants (constantWithin levels) parted depth (levels + 1) := by
  induction levels generalizing depth with
  | zero =>
    intro lexemes others value terminal before spelled _ short
    exact absurd (List.length_eq_zero_iff.1 (by omega)) spelled.ne_nil
  | succ levels ih =>
    intro lexemes others value terminal before spelled clear short leads opens
    refine passes_constantOf ?_ (spelled.mono (Nat.le_succ _)) clear leads opens
    intro part others' inner terminal' before' spelled' clear' shorter
    exact ih spelled' clear' (by omega)

/-- A constant that is spelled is passed if no element and no key in it, but for the first, is a
keyword after a list separator. -/
theorem passes_constant (spelled : ConstantSpelling parted depth lexemes value)
    (clear : value.Clear) (leads : Leads value.opening (lexemes ++ others) before)
    (opens : Opens Follow.afterConstant terminal others) :
    Passes constant before terminal others := by
  refine passes_get_bind (passesConstants_constantWithin _ spelled clear ?_ leads opens)
  have enough := leads.length_le
  rw [List.length_append] at enough
  omega

end Constants

end ThriftIdl
