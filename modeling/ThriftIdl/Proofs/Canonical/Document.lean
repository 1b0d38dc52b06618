import ThriftIdl.Proofs.Canonical.Definitions
import ThriftIdl.Proofs.Places
import ThriftIdl.Proofs.Reader.Source

/-!
# Canonical text of documents

Every document that can be written has a canonical text. Read directly, the text gives the document
back but for the places, and the document that was read has the same canonical text again
(`Document.Representable.reads_back`).
-/
namespace ThriftIdl

open Text

variable {π ρ : Type}

section Contents

/-- What is done for changed things is done for the things, if it does not depend on the change. -/
theorem mapM_map_eq {α β γ ε : Type} {change : α → β} {write : β → Except ε γ}
    {write' : α → Except ε γ} (each : ∀ thing, write (change thing) = write' thing)
    (things : List α) : (things.map change).mapM write = things.mapM write' := by
  have same : write ∘ change = write' := funext each
  rw [List.mapM_map, same]

/-- The text of a field does not depend on its place. -/
theorem Field.idl_map (move : π → ρ) (field : Field π) : (field.map move).idl = field.idl := rfl

/-- The text of fields does not depend on their places. -/
theorem fieldsIdl_map (move : π → ρ) (fields : List (Field π)) :
    fieldsIdl (fields.map (Field.map move)) = fieldsIdl fields := by
  rw [fieldsIdl, mapM_map_eq (Field.idl_map move), fieldsIdl]

/-- The text of a function does not depend on its places. -/
theorem FunctionDecl.idl_map (move : π → ρ) (function : FunctionDecl π) :
    (function.map move).idl = function.idl := by
  obtain ⟨name, returns, oneway, parameters, exceptions, place⟩ := function
  cases exceptions with
  | none =>
    simp only [FunctionDecl.idl, FunctionDecl.map, fieldsIdl_map]
    rfl
  | some fields =>
    simp only [FunctionDecl.idl, FunctionDecl.map, fieldsIdl_map, Option.map_some]
    rfl

/-- The lines of a definition do not depend on its places. -/
theorem Definition.idl_map (move : π → ρ) (definition : Definition π) :
    (definition.map move).idl = definition.idl := by
  cases definition with
  | inclusion | cppInclusion | space | typedef | const => rfl
  | enum decl =>
    have each : ∀ value : EnumValue π, (value.map move).idl = value.idl := fun _ => rfl
    simp [Definition.idl, Definition.map, EnumDecl.map, Function.comp_def, each]
  | record kind decl =>
    simp only [Definition.idl, Definition.map, Record.map, mapM_map_eq (Field.idl_map move)]
  | service decl =>
    simp only [Definition.idl, Definition.map, Service.map,
      mapM_map_eq (FunctionDecl.idl_map move)]

/-- Definitions belong to the header wherever they are. -/
theorem Definition.isHeader_map (move : π → ρ) (definition : Definition π) :
    (definition.map move).isHeader = definition.isHeader := by
  cases definition <;> rfl

/-- The text of a document does not depend on its places. -/
theorem Document.idl_map (move : π → ρ) (document : Document π) :
    (document.map move).idl = document.idl := by
  rw [Document.idl, Document.idl, definitions_map, definitionsIdl, definitionsIdl, mapM_map_eq]
  intro definition
  rw [definition.idl_map, definition.isHeader_map]

end Contents

section Sections

variable {α : Type} {item : List Lexeme → α → Prop} {gap : List Char} {limit : Nat}

/-- Sections with a gap between them spell their items in a row. -/
theorem spells_intercalate {texts : List (List Char)} {parts : List (List α)} (filler : Filler gap)
    (some_gap : gap ≠ []) (stops : ∀ rest, Closed (gap ++ rest))
    (each : List.Forall₂ (fun text values => Spells Closed text (Sequence item · values)) texts
      parts) (some : texts ≠ []) :
    Spells Closed (gap.intercalate texts) (Sequence item · parts.flatten) := by
  induction each with
  | nil => exact absurd rfl some
  | @cons text values texts parts first others ih =>
    cases others with
    | nil => simpa [List.intercalate] using first
    | @cons next _ texts' _ second others =>
      have row : gap.intercalate (text :: next :: texts') =
          text ++ (gap ++ gap.intercalate (next :: texts')) := by
        simp [List.intercalate]
      rw [row]
      refine (first.append filler (ih (by simp)) (absurd · some_gap) fun rest _ => stops _).imp ?_
      rintro _ ⟨before, after, rfl, spelled, spelled', -⟩
      exact spelled.append spelled'

/-- A text that spells an item spells a row of one. -/
theorem spells_single {text : List Char} {value : α} (spells : Spells Closed text (item · value)) :
    Spells Closed text (Sequence item · [value]) := by
  refine spells.imp fun lexemes spelled => ?_
  simpa using Sequence.cons spelled .nil

/-- The lines of definitions have line ends between them. -/
theorem lined_flatten {sections : List (List (List Char))} (some : ∀ lines ∈ sections, lines ≠ []) :
    lined sections.flatten = ['\n'].intercalate (sections.map lined) := by
  have append : ∀ lines others : List (List Char), lines ≠ [] → others ≠ [] →
      lined (lines ++ others) = lined lines ++ '\n' :: lined others := by
    intro lines others lines_ne others_ne
    induction lines with
    | nil => exact absurd rfl lines_ne
    | cons line lines ih =>
      have more : lines ++ others ≠ [] := by simp [others_ne]
      rw [List.cons_append, lined_cons _ more]
      cases lines with
      | nil => simp
      | cons next lines =>
        have some : next :: lines ≠ [] := by simp
        rw [ih some, lined_cons line some, List.append_assoc, List.cons_append]
  induction sections with
  | nil => rfl
  | cons lines sections ih =>
    obtain ⟨lines_ne, others_ne⟩ := List.forall_mem_cons.1 some
    cases sections with
    | nil => simp [List.intercalate]
    | cons next sections =>
      have next_ne : next ≠ [] := others_ne next (by simp)
      rw [List.flatten_cons, append lines _ lines_ne (by simp [next_ne]), ih others_ne]
      simp [List.intercalate]

/-- The lines of a definition, with whether they belong to the header, spell the definition. -/
structure Paragraph (limit : Nat) (text : Bool × List (List Char)) (definition : Definition π) :
    Prop where
  /-- Whether the definition belongs to the header. -/
  header : text.1 = definition.isHeader
  /-- There are lines. -/
  lines : text.2 ≠ []
  /-- The lines spell the definition. -/
  spells : Spells Closed (lined text.2) (EndedWriting limit · definition)

/-- Sections spell their items in a row, and nothing but blanks follows. -/
theorem lexes_sectioned {texts : List (List Char)} {parts : List (List α)}
    (each : List.Forall₂ (fun text values => Spells Closed text (Sequence item · values)) texts
      parts) :
    ∃ lexemes rest, AllLexes takesExponent (sectioned texts) lexemes rest ∧ skip rest = [] ∧
      lexemes.IsChain Loose ∧ Sequence item lexemes parts.flatten := by
  by_cases none : texts = []
  · subst none
    cases each
    exact ⟨[], [], fun _ _ => rfl, rfl, .nil, .nil⟩
  · have filler : Filler ['\n', '\n'] := .blank rfl (.blank rfl .nil)
    have spells := spells_intercalate filler (by simp) (fun rest => closed_lineEnd _) each none
    obtain ⟨lexemes, lexes, spelled, -, loose⟩ := spells .nil (closed_lineEnd [])
    refine ⟨lexemes, ['\n'], ?_, rfl, loose, spelled⟩
    simpa [sectioned, none] using lexes

/-- Definitions have lines. -/
theorem lines_ne_nil {texts : List (Bool × List (List Char))} {definitions : List (Definition π)}
    (each : List.Forall₂ (Paragraph limit) texts definitions) :
    ∀ lines ∈ texts.map (·.2), lines ≠ [] := by
  induction each with
  | nil => simp
  | cons first _ ih => exact List.forall_mem_cons.2 ⟨first.lines, ih⟩

/-- Lists of one thing each, put together. -/
theorem flatten_singletons (values : List α) :
    (values.map fun value => [value]).flatten = values :=
  List.flatMap_singleton' values

/-- The section of the header spells its definitions, if there are any. -/
theorem exists_headerSection {texts : List (Bool × List (List Char))}
    {definitions : List (Definition π)} (each : List.Forall₂ (Paragraph limit) texts definitions) :
    ∃ parts : List (List (Definition π)),
      List.Forall₂ (fun text values =>
          Spells Closed text (Sequence (EndedWriting limit) · values))
        (if (texts.flatMap (·.2)).isEmpty then [] else [lined (texts.flatMap (·.2))]) parts ∧
      parts.flatten = definitions := by
  by_cases none : texts = []
  · subst none
    cases each
    exact ⟨[], .nil, rfl⟩
  · have lines := lines_ne_nil each
    have some : (texts.flatMap (·.2)).isEmpty = false := by
      obtain ⟨text, texts, rfl⟩ := List.exists_cons_of_ne_nil none
      have first : text.2 ≠ [] := lines text.2 (by simp)
      simp [first]
    have singles : List.Forall₂ (fun text values =>
        Spells Closed text (Sequence (EndedWriting limit) · values))
        ((texts.map (·.2)).map lined) (definitions.map fun definition => [definition]) := by
      rw [List.map_map]
      exact List.forall₂_map_left_iff.2 (List.forall₂_map_right_iff.2
        (each.imp fun _ _ paragraph => spells_single paragraph.spells))
    have filler : Filler ['\n'] := .blank rfl .nil
    refine ⟨[definitions], ?_, by simp⟩
    have spells := spells_intercalate filler (by simp) (fun rest => closed_lineEnd _) singles
      (by simpa using none)
    rw [flatten_singletons, ← lined_flatten lines] at spells
    rw [some]
    exact .cons spells .nil

/-- Paragraphs spell the definitions of the header, and then the others. -/
theorem lexes_paragraphs {texts : List (Bool × List (List Char))}
    {definitions : List (Definition π)} (each : List.Forall₂ (Paragraph limit) texts definitions) :
    ∃ lexemes rest, AllLexes takesExponent (paragraphs texts) lexemes rest ∧ skip rest = [] ∧
      lexemes.IsChain Loose ∧ Sequence (EndedWriting limit) lexemes
        (definitions.filter (·.isHeader) ++ definitions.filter (!·.isHeader)) := by
  have header : List.Forall₂ (Paragraph limit) (texts.filter (·.1))
      (definitions.filter (·.isHeader)) :=
    List.rel_filter (fun text definition paragraph => by simp [paragraph.header]) each
  have body : List.Forall₂ (Paragraph limit) (texts.filter (!·.1))
      (definitions.filter (!·.isHeader)) :=
    List.rel_filter (fun text definition paragraph => by simp [paragraph.header]) each
  obtain ⟨parts, first, flattened⟩ := exists_headerSection header
  have others : List.Forall₂ (fun text values =>
      Spells Closed text (Sequence (EndedWriting limit) · values))
      ((texts.filter (!·.1)).map fun text => lined text.2)
      ((definitions.filter (!·.isHeader)).map fun definition => [definition]) :=
    List.forall₂_map_left_iff.2 (List.forall₂_map_right_iff.2
      (body.imp fun _ _ paragraph => spells_single paragraph.spells))
  obtain ⟨lexemes, rest, lexes, ends, loose, spelled⟩ :=
    lexes_sectioned (List.rel_append first others)
  refine ⟨lexemes, rest, lexes, ends, loose, ?_⟩
  rwa [List.flatten_append, flattened, flatten_singletons] at spelled

end Sections

section Documents

variable {limit : Int}

/-- The definitions of a document begin with its header. -/
theorem Document.filter_definitions (document : Document π) :
    document.definitions.filter (·.isHeader) ++ document.definitions.filter (!·.isHeader) =
      document.definitions := by
  simp [definitions, List.filter_append, List.filter_map, Function.comp_def, Definition.isHeader]

/-- A document that can be written has a text, whose lexemes spell definitions that are those of the
document but for the places, with a list separator after each function. -/
theorem Document.Representable.exists_lexes {document : Document π} {limit : Nat}
    (representable : document.Representable) (shallow : document.depth ≤ limit) :
    ∃ text lexemes rest reads, document.idl = .ok text ∧
      AllLexes takesExponent text lexemes rest ∧ skip rest = [] ∧ lexemes.IsChain Loose ∧
        Sequence (EndedSpelling true true limit) lexemes reads ∧
          (ofDefinitions reads).map content = document.map content := by
  obtain ⟨texts, written, each⟩ : ∃ texts, (document.definitions.mapM fun definition => do
      return (definition.isHeader, ← definition.idl)) = .ok texts ∧
      List.Forall₂ (Paragraph limit) texts document.definitions := by
    refine exists_mapM_eq_ok fun definition mem => ?_
    have within : definition.depth ≤ limit := greatest_le_iff.1 shallow definition mem
    obtain ⟨lines, idl, some, spells⟩ :=
      Definition.Representable.exists_spells (representable definition mem) within
    exact ⟨(definition.isHeader, lines), by rw [idl]; rfl, rfl, some, spells⟩
  have idl : document.idl = .ok (paragraphs texts) := by
    rw [Document.idl, definitionsIdl, written]
    rfl
  obtain ⟨lexemes, rest, lexes, ends, loose, spelled⟩ := lexes_paragraphs each
  rw [document.filter_definitions] at spelled
  obtain ⟨reads, same, spelled⟩ := spelled.exists_reads
  refine ⟨_, lexemes, rest, reads, idl, lexes, ends, loose, spelled, ?_⟩
  rw [← ofDefinitions_map, same, ofDefinitions_map, ofDefinitions_definitions]

/-- A document that can be written has a text. Read directly within any limit that is no less than
the depth of the document, the text gives the document back but for the places, and what was read
has the same text again. -/
theorem Document.Representable.reads_back {document : Document π}
    (representable : document.Representable) (shallow : (document.depth : Int) ≤ limit) :
    ∃ text, document.idl = .ok text ∧ ∃ read, readStrictly limit text = .ok read ∧
      read.map content = document.map content ∧ read.idl = .ok text := by
  have shallow' : document.depth ≤ limit.toNat := by omega
  obtain ⟨text, lexemes, rest, reads, idl, lexes, ends, -, spelled, same⟩ :=
    representable.exists_lexes shallow'
  have contents : ((ofDefinitions reads).map (positionIn text 0)).map content =
      document.map content := by
    rw [map_map]
    exact same
  have again : ((ofDefinitions reads).map (positionIn text 0)).idl = .ok text := by
    rw [← idl_map content, contents, idl_map, idl]
  exact ⟨text, idl, _, readStrictly_eq_ok_iff.2
    ⟨lexemes, rest, reads, lexes fun _ fits => fits, ends,
      spelled.imp fun _ _ _ one => one.spelling, rfl⟩, contents, again⟩

/-- A constant and a struct that are named like words of the language. -/
def wordsAsNames : Document Unit :=
  .ofDefinitions [.const ⟨"const", .base .double, .double (.number true .zero), ()⟩,
    .record .struct ⟨"struct", [⟨.list (.named "list"), "throws", some (-1), .optional,
      some (.list [.name "set"]), ()⟩], ()⟩]

/-- Names may be words of the language. -/
theorem representable_wordsAsNames : wordsAsNames.Representable := by
  have field : Field.Representable (⟨.list (.named "list"), "throws", some (-1), .optional,
      some (.list [.name "set"]), ()⟩ : Field Unit) := by
    have unlike : ∀ type : BaseType, "list" ≠ type.keyword := by
      intro type
      cases type <;> decide
    refine ⟨by decide, ⟨by decide, unlike⟩, ?_, ?_, by simp⟩
    · rintro _ ⟨⟩
      decide
    · rintro _ ⟨⟩
      exact ⟨(by decide : IsName "set".toList), trivial⟩
  have names : IsName "const".toList ∧ IsName "struct".toList := by decide
  have zero : (Double.number true .zero).isFinite := by decide
  intro definition mem
  have cases : definition = .const ⟨"const", .base .double, .double (.number true .zero), ()⟩ ∨
      definition = .record .struct ⟨"struct", [⟨.list (.named "list"), "throws", some (-1),
        .optional, some (.list [.name "set"]), ()⟩], ()⟩ := List.mem_pair.1 mem
  rcases cases with rfl | rfl
  · exact ⟨trivial, names.1, zero⟩
  · exact ⟨names.2, List.forall_mem_singleton.2 field⟩

/-- Words of the language that are names are written and read back. -/
theorem reads_back_wordsAsNames :
    ∃ text, wordsAsNames.idl = .ok text ∧ ∃ read, readStrictly 1 text = .ok read ∧
      read.map content = wordsAsNames.map content ∧ read.idl = .ok text :=
  representable_wordsAsNames.reads_back (by decide)

end Documents

end ThriftIdl
