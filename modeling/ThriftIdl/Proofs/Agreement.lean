import ThriftIdl.Fuzz.Finding
import ThriftIdl.Proofs.Grammar.Converting
import ThriftIdl.Proofs.Names
import ThriftIdl.Proofs.Passing.Source

/-!
# Two ways to read a text

A text may be read directly or over tokens. If no double of it has an exponent of more than 64 bits,
both ways find the same lexemes, and give the same document if they give one
(`readStrictly_agrees`). What is read over tokens is then read directly as well, if its lexemes stand
apart where a direct reader asks for it (`readStrictly_of_standApart`). Where tokens are separated,
what is read over tokens is read directly, and the other way round if no name is a keyword
(`Separated.reads_alike`). Only direct reading converts the exponents of doubles, which fails where one
has more digits than can be converted.
-/
namespace ThriftIdl

open Text

section Agreement

variable {limit : Int} {source : List Char}

/-- A document that is read over tokens is spelled by lexemes as they are read directly, if no double
has an exponent of more than 64 bits. -/
theorem exists_lexes_of_readGrammatically {document : Document Position}
    (small : ∀ lexeme ∈ lexemes source, lexeme.overflows = false)
    (accepted : readGrammatically limit source = .ok document) :
    ∃ rest definitions, Lexes takesExponent source (lexemes source) rest ∧ skip rest = [] ∧
      DefinitionsSpelling false limit.toNat (lexemes source) definitions ∧
        document = (Document.ofDefinitions definitions).map (positionIn source 0) := by
  obtain ⟨_, read, rfl⟩ := readGrammatically_eq_ok_iff.1 accepted
  obtain ⟨parts, rest, definitions, lexes, ends, spelled, rfl, -⟩ :=
    spelled_readByTokens read
  obtain rfl := lexemes_eq lexes ends
  exact ⟨rest, definitions, lexes.fits small, ends, spelled, rfl⟩

/-- If a text is read directly and over tokens, both give the same document, unless a double has an
exponent of more than 64 bits. -/
theorem readStrictly_agrees {document document' : Document Position}
    (small : ∀ lexeme ∈ lexemes source, lexeme.overflows = false)
    (direct : readStrictly limit source = .ok document)
    (accepted : readGrammatically limit source = .ok document') : document = document' := by
  obtain ⟨rest', definitions', lexes', ends', spelled', rfl⟩ :=
    exists_lexes_of_readGrammatically small accepted
  obtain ⟨parts, rest, definitions, lexes, ends, spelled, rfl⟩ := readStrictly_eq_ok_iff.1 direct
  obtain ⟨rfl, rfl⟩ := lexes.unique ends lexes' ends'
  rw [DefinitionsSpelling.document_unique lexes spelled.converts spelled spelled']

/-- A field without a list separator after a double is read alike in both ways. -/
theorem readStrictly_agrees_shortExponent : ∃ document document' : Document Position,
    (∀ lexeme ∈ lexemes "struct S { double x = 1e9 required i32 y }".toList,
      lexeme.overflows = false) ∧
    readStrictly 64 "struct S { double x = 1e9 required i32 y }".toList = .ok document ∧
    readGrammatically 64 "struct S { double x = 1e9 required i32 y }".toList = .ok document' ∧
    document = document' := by
  have small : ∀ lexeme ∈ lexemes "struct S { double x = 1e9 required i32 y }".toList,
      lexeme.overflows = false := by decide +kernel
  have direct : (readStrictly 64 "struct S { double x = 1e9 required i32 y }".toList).isOk := by
    decide +kernel
  have accepted :
      (readGrammatically 64 "struct S { double x = 1e9 required i32 y }".toList).isOk := by
    decide +kernel
  obtain ⟨document, direct⟩ := exists_eq_ok_of_isOk direct
  obtain ⟨document', accepted⟩ := exists_eq_ok_of_isOk accepted
  exact ⟨document, document', small, direct, accepted, readStrictly_agrees small direct accepted⟩

/-- What is read over tokens is read directly, if no double has an exponent of more than 64 bits, or with
more digits than can be converted, and the lexemes are apart where a direct reader asks for it: the star of
a namespace, and a constant after another in a list or a map. Then the fuzzer does not find that only
reading over tokens accepts it. -/
theorem readStrictly_of_standApart (small : ∀ lexeme ∈ lexemes source, lexeme.overflows = false)
    (short : ∀ lexeme ∈ lexemes source, lexeme.converts) (apart : standApart (lexemes source)) :
    (∀ limit document, readGrammatically limit source = .ok document →
      readStrictly limit source = .ok document) ∧
    Fuzz.verdict source ≠ .tokensOnly := by
  have direct : ∀ limit document, readGrammatically limit source = .ok document →
      readStrictly limit source = .ok document := by
    intro limit document accepted
    obtain ⟨rest, definitions, lexes, ends, spelled, rfl⟩ :=
      exists_lexes_of_readGrammatically small accepted
    exact readStrictly_eq_ok_iff.2
      ⟨lexemes source, rest, definitions, lexes, ends, spelled.of_standApart apart short, rfl⟩
  refine ⟨direct, fun only => ?_⟩
  simp only [Fuzz.verdict, Manner.read] at only
  cases accepted : readGrammatically standardLimit source with
  | ok document =>
    simp only [accepted, direct _ _ accepted, Except.mapError] at only
    split at only <;> cases only
  | error refusal =>
    simp only [accepted, Except.mapError] at only
    split at only <;> simp_all

/-- A namespace with a star and a list without list separators are read directly, where they stand
apart. -/
theorem readStrictly_of_standApart_spaced :
    (∀ lexeme ∈ lexemes "namespace * a const list<i32> b = [1 c [2]]".toList,
      lexeme.overflows = false) ∧
    (∀ lexeme ∈ lexemes "namespace * a const list<i32> b = [1 c [2]]".toList, lexeme.converts) ∧
    standApart (lexemes "namespace * a const list<i32> b = [1 c [2]]".toList) ∧
    ∃ document : Document Position,
      readGrammatically 2 "namespace * a const list<i32> b = [1 c [2]]".toList = .ok document ∧
      readStrictly 2 "namespace * a const list<i32> b = [1 c [2]]".toList = .ok document := by
  have small : ∀ lexeme ∈ lexemes "namespace * a const list<i32> b = [1 c [2]]".toList,
      lexeme.overflows = false := by decide +kernel
  have short : ∀ lexeme ∈ lexemes "namespace * a const list<i32> b = [1 c [2]]".toList,
      lexeme.converts := by decide +kernel
  have apart : standApart (lexemes "namespace * a const list<i32> b = [1 c [2]]".toList) := by
    decide +kernel
  have accepted :
      (readGrammatically 2 "namespace * a const list<i32> b = [1 c [2]]".toList).isOk := by
    decide +kernel
  obtain ⟨document, accepted⟩ := exists_eq_ok_of_isOk accepted
  exact ⟨small, short, apart, document, accepted,
    (readStrictly_of_standApart small short apart).1 2 document accepted⟩

/-- Where lexemes touch that are asked to be apart, only reading over tokens accepts them. -/
example : (readGrammatically 2 "namespace* a const list<i32> b = [1[2]]".toList).isOk ∧
    ¬ (readStrictly 2 "namespace * a const list<i32> b = [1[2]]".toList).isOk ∧
    ¬ (readStrictly 2 "namespace* a".toList).isOk := by decide +kernel

end Agreement

section Separation

variable {limit : Int} {source rest : List Char} {tokens : List (List Char)}
  {lexemes : List Lexeme}

/-- Where tokens are separated and no exponent has more than 64 bits, a document that is read over tokens
is read directly if each exponent has few enough digits to be converted, and a document that is read
directly is read over tokens if none of its names is a keyword. Both readings give the same positions. -/
theorem Separated.reads_alike (separated : Separated tokens source)
    (each : ∀ token ∈ tokens, IsToken fitsNumeral token) :
    ((∀ token ∈ tokens, IsToken admitsInteger token) →
      ∀ document, readGrammatically limit source = .ok document →
        readStrictly limit source = .ok document) ∧
    ∀ document, readStrictly limit source = .ok document →
      (∀ name ∈ document.names, IsFree name) → readGrammatically limit source = .ok document := by
  constructor
  · intro short document accepted
    obtain ⟨lexemes, rest, lexes, ends, -, wholes, apart⟩ := separated.exists_lexes short
    have direct : Lexes takesExponent source lexemes rest :=
      lexes fun _ => takesExponent_of_admitsInteger
    have whole : Lexes (fun _ => true) source lexemes rest := lexes fun _ _ => rfl
    have converts : ∀ lexeme ∈ lexemes, lexeme.converts :=
      fun lexeme mem => (wholes lexeme mem).converts fun _ => isConvertible_of_admitsInteger
    obtain ⟨_, read, rfl⟩ := readGrammatically_eq_ok_iff.1 accepted
    obtain ⟨parts, rest', definitions, lexes', ends', spelled, rfl, -⟩ :=
      spelled_readByTokens read
    obtain ⟨rfl, rfl⟩ := lexes'.unique ends' whole ends
    exact readStrictly_eq_ok_iff.2
      ⟨parts, rest', definitions, direct, ends, spelled.of_apart apart converts, rfl⟩
  · intro document accepted free
    obtain ⟨lexemes, rest, lexes, ends, -, -, apart⟩ := separated.exists_lexes each
    have all : AllLexes takesExponent source lexemes rest :=
      fun _ more => lexes fun exponent fits => more exponent (takesExponent_of_fitsNumeral fits)
    obtain ⟨parts, rest', definitions, lexes', ends', spelled, rfl⟩ :=
      readStrictly_eq_ok_iff.1 accepted
    obtain ⟨rfl, rfl⟩ := lexes'.unique ends' (all fun _ fits => fits) ends
    rw [Document.names_map] at free
    obtain ⟨settled, clear, unthrown⟩ := Document.clear_of_names free
    have read := readByTokens_of_spelled all ends (isChain_loose_of_apart apart) spelled settled
      clear unthrown
    exact readGrammatically_eq_ok_iff.2 ⟨_, read, rfl⟩

/-- A constant is read alike in both ways, whatever separates its tokens. -/
theorem Separated.reads_alike_constant :
    let tokens := ["const", "double", "Old", "=", "1e9"].map String.toList
    let source := "const double // new\n Old = 1e9".toList
    Separated tokens source ∧ (∀ token ∈ tokens, IsToken fitsNumeral token) ∧
      (∀ token ∈ tokens, IsToken admitsInteger token) ∧
      ∃ document, readGrammatically 0 source = .ok document ∧ readStrictly 0 source = .ok document := by
  have blank : Filler [' '] := .blank rfl .nil
  have line : Filler ('/' :: '/' :: (" new".toList ++ '\n' :: [' '])) :=
    .slashes (by decide) (.blank rfl .nil)
  have comment : Filler " // new\n ".toList := .blank rfl line
  have separated : Separated (["const", "double", "Old", "=", "1e9"].map String.toList)
      "const double // new\n Old = 1e9".toList :=
    .cons .nil (.cons blank (by simp) (.cons comment (by decide) (.cons blank (by simp)
      (.cons blank (by simp) (.nil .nil)))))
  have formed := wellFormed_scanNumber admitsInteger "1e9".toList
  have double : IsToken admitsInteger "1e9".toList :=
    ⟨.double, _, formed.1, by decide, by decide, formed.2, by decide⟩
  have word {word : String} (isName : IsName word.toList) : IsToken admitsInteger word.toList :=
    ⟨.word, isName⟩
  have short : ∀ token ∈ ["const", "double", "Old", "=", "1e9"].map String.toList,
      IsToken admitsInteger token := by
    simp only [List.map_cons, List.map_nil, List.forall_mem_cons, List.not_mem_nil, false_imp_iff,
      implies_true, and_true]
    exact ⟨word (by decide), word (by decide), word (by decide), ⟨.mark .equal, rfl⟩, double⟩
  have each : ∀ token ∈ ["const", "double", "Old", "=", "1e9"].map String.toList,
      IsToken fitsNumeral token := fun token mem =>
    let ⟨shape, whole⟩ := short token mem
    ⟨shape, whole.mono fun _ admitted => (Bool.and_eq_true_iff.1 admitted).2⟩
  have accepted : (readGrammatically 0 "const double // new\n Old = 1e9".toList).isOk := by
    decide +kernel
  obtain ⟨document, accepted⟩ := exists_eq_ok_of_isOk accepted
  exact ⟨separated, each, short, document, accepted,
    (separated.reads_alike each).1 short document accepted⟩

end Separation

end ThriftIdl
