import ThriftIdl.Manner
import ThriftIdl.Proofs.Canonical.Document
import ThriftIdl.Proofs.Token.Source
import ThriftIdl.Proofs.Tree.Data
import ThriftIdl.Proofs.Tree.Same

/-!
# Documents of accepted texts

In whatever manner a text is read, the document that it gives is well-formed and nested within the
limit. Such a document has a canonical text unless one of its doubles is infinite, and it always has
plain data (`Manner.wellFormed_of_read`). What is read strictly is equal to itself, although doubles are
compared as numbers (`same_self_of_readStrictly`).
-/
namespace ThriftIdl

variable {π : Type}

/-- A double is infinite, of either sign. -/
def Double.IsInfinite (value : Double) : Prop := ∃ negative, value = .number negative .infinity

/-- A double that is a number is finite or infinite. -/
theorem Double.isFinite_or_isInfinite {value : Double} (number : value ≠ .nan) :
    value.isFinite ∨ value.IsInfinite := by
  cases value with
  | nan => exact absurd rfl number
  | number negative magnitude =>
    by_cases finite : magnitude.ordinal < infinityOrdinal
    · exact .inl (decide_eq_true finite)
    · refine .inr ⟨negative, ?_⟩
      obtain ⟨ordinal, le⟩ := magnitude
      obtain rfl : ordinal = infinityOrdinal := Nat.le_antisymm le (Nat.not_lt.1 finite)
      rfl

/-- An infinite double is not finite. -/
theorem Double.IsInfinite.not_isFinite {value : Double} (infinite : value.IsInfinite) :
    ¬ value.isFinite := by
  obtain ⟨negative, rfl⟩ := infinite
  simp [isFinite, Magnitude.isFinite, Magnitude.infinity]

section Finite

/-- What is done after something else is done with what that gave. -/
theorem exists_of_bind_eq_ok {α β ε : Type} {first : Except ε α} {next : α → Except ε β} {value : β}
    (done : (first >>= next) = .ok value) :
    ∃ middle, first = .ok middle ∧ next middle = .ok value := by
  cases first with
  | error reason => cases done
  | ok middle => exact ⟨middle, rfl, done⟩

/-- What is done for all members of a list is done for each of them. -/
theorem exists_of_mapM_eq_ok {α β ε : Type} {write : α → Except ε β} {things : List α}
    {texts : List β} (written : things.mapM write = .ok texts) :
    ∀ thing ∈ things, ∃ text, write thing = .ok text := by
  induction things generalizing texts with
  | nil => simp
  | cons thing things ih =>
    rw [List.mapM_cons] at written
    obtain ⟨text, first, written⟩ := exists_of_bind_eq_ok written
    obtain ⟨texts, others, -⟩ := exists_of_bind_eq_ok written
    exact List.forall_mem_cons.2 ⟨⟨text, first⟩, ih others⟩

mutual
/-- The doubles of a constant with a text are finite. -/
theorem ConstValue.isFinite_of_idl : ∀ {value : ConstValue} {text : List Char},
    value.idl = .ok text → ∀ double ∈ value.doubles, double.isFinite
  | .name _, _, _ | .literal _, _, _ | .int _, _, _ => by simp [ConstValue.doubles]
  | .double value, text, written => by
    simp only [ConstValue.idl] at written
    split at written
    next finite => simpa [ConstValue.doubles] using finite
    next => cases written
  | .list values, text, written => by
    rw [ConstValue.idl] at written
    obtain ⟨texts, inner, -⟩ := exists_of_bind_eq_ok written
    exact isFinite_of_idlOfValues inner
  | .map entries, text, written => by
    rw [ConstValue.idl] at written
    obtain ⟨texts, inner, -⟩ := exists_of_bind_eq_ok written
    exact isFinite_of_idlOfEntries inner

/-- The doubles of constants with texts are finite. -/
theorem isFinite_of_idlOfValues : ∀ {values : List ConstValue} {texts : List (List Char)},
    idlOfValues values = .ok texts → ∀ double ∈ doublesOfValues values, double.isFinite
  | [], _, _ => by simp [doublesOfValues]
  | value :: values, texts, written => by
    rw [idlOfValues] at written
    obtain ⟨text, first, written⟩ := exists_of_bind_eq_ok written
    obtain ⟨texts, others, -⟩ := exists_of_bind_eq_ok written
    exact List.forall_mem_append.2 ⟨ConstValue.isFinite_of_idl first, isFinite_of_idlOfValues others⟩

/-- The doubles of entries with texts are finite. -/
theorem isFinite_of_idlOfEntries : ∀ {entries : List (ConstValue × ConstValue)}
    {texts : List (List Char)}, idlOfEntries entries = .ok texts →
    ∀ double ∈ doublesOfEntries entries, double.isFinite
  | [], _, _ => by simp [doublesOfEntries]
  | (key, value) :: entries, texts, written => by
    rw [idlOfEntries] at written
    obtain ⟨keyText, first, written⟩ := exists_of_bind_eq_ok written
    obtain ⟨text, second, written⟩ := exists_of_bind_eq_ok written
    obtain ⟨texts, others, -⟩ := exists_of_bind_eq_ok written
    exact List.forall_mem_append.2 ⟨List.forall_mem_append.2 ⟨ConstValue.isFinite_of_idl first,
      ConstValue.isFinite_of_idl second⟩, isFinite_of_idlOfEntries others⟩
end

/-- The doubles of things with texts are finite if those of each of them are. -/
theorem isFinite_of_mapM {α β : Type} {write : α → Except Unprintable β} {doublesOf : α → List Double}
    (each : ∀ {thing text}, write thing = .ok text → ∀ double ∈ doublesOf thing, double.isFinite)
    {things : List α} {texts : List β} (written : things.mapM write = .ok texts) :
    ∀ double ∈ things.flatMap doublesOf, double.isFinite := by
  intro double mem
  obtain ⟨thing, isThing, mem⟩ := List.mem_flatMap.1 mem
  obtain ⟨text, written⟩ := exists_of_mapM_eq_ok written thing isThing
  exact each written double mem

/-- The doubles of a field with a text are finite. -/
theorem Field.isFinite_of_idl {field : Field π} {text : List Char} (written : field.idl = .ok text) :
    ∀ double ∈ field.doubles, double.isFinite := by
  obtain ⟨type, name, id, requiredness, value, place⟩ := field
  cases value with
  | none => simp [doubles]
  | some value =>
    obtain ⟨text, first, -⟩ := exists_of_bind_eq_ok written
    simpa [doubles] using ConstValue.isFinite_of_idl first

/-- The doubles of fields in one line are finite. -/
theorem isFinite_of_fieldsIdl {fields : List (Field π)} {text : List Char}
    (written : fieldsIdl fields = .ok text) :
    ∀ double ∈ fields.flatMap Field.doubles, double.isFinite := by
  obtain ⟨texts, each, -⟩ := exists_of_bind_eq_ok written
  exact isFinite_of_mapM Field.isFinite_of_idl each

/-- The doubles of a function with a text are finite. -/
theorem FunctionDecl.isFinite_of_idl {function : FunctionDecl π} {text : List Char}
    (written : function.idl = .ok text) : ∀ double ∈ function.doubles, double.isFinite := by
  obtain ⟨name, returns, oneway, parameters, exceptions, place⟩ := function
  obtain ⟨text, first, written⟩ := exists_of_bind_eq_ok written
  cases exceptions with
  | none => simpa [doubles] using isFinite_of_fieldsIdl first
  | some fields =>
    obtain ⟨text, second, -⟩ := exists_of_bind_eq_ok written
    simp only [doubles, Option.getD_some, List.flatMap_append, List.forall_mem_append]
    exact ⟨isFinite_of_fieldsIdl first, isFinite_of_fieldsIdl second⟩

/-- The doubles of a definition with a text are finite. -/
theorem Definition.isFinite_of_idl {definition : Definition π} {lines : List (List Char)}
    (written : definition.idl = .ok lines) : ∀ double ∈ definition.doubles, double.isFinite := by
  cases definition with
  | inclusion | cppInclusion | space | typedef | enum => simp [doubles]
  | const decl =>
    obtain ⟨text, value, -⟩ := exists_of_bind_eq_ok written
    exact ConstValue.isFinite_of_idl value
  | record kind decl =>
    obtain ⟨texts, members, -⟩ := exists_of_bind_eq_ok written
    exact isFinite_of_mapM Field.isFinite_of_idl members
  | service decl =>
    obtain ⟨texts, members, -⟩ := exists_of_bind_eq_ok written
    exact isFinite_of_mapM FunctionDecl.isFinite_of_idl members

/-- The doubles of a document with a text are finite. -/
theorem Document.isFinite_of_idl {document : Document π} {text : List Char}
    (written : document.idl = .ok text) : ∀ double ∈ document.doubles, double.isFinite := by
  obtain ⟨texts, members, -⟩ := exists_of_bind_eq_ok written
  refine isFinite_of_mapM (fun written => ?_) members
  obtain ⟨lines, written, -⟩ := exists_of_bind_eq_ok written
  exact Definition.isFinite_of_idl written

end Finite

/-- A well-formed document whose doubles are numbers has a canonical text unless one of them is
infinite. -/
theorem Document.WellFormed.exists_idl_eq_error_iff {document : Document π}
    (formed : document.WellFormed (· ≠ .nan)) :
    (∃ reason, document.idl = .error reason) ↔ ∃ double ∈ document.doubles, double.IsInfinite := by
  obtain ⟨formed, numbers⟩ := document.wellFormed_iff.1 formed
  constructor
  · rintro ⟨reason, refused⟩
    by_contra none
    have finite : ∀ double ∈ document.doubles, double.isFinite := fun double mem =>
      (Double.isFinite_or_isInfinite (numbers double mem)).resolve_right fun infinite =>
        none ⟨double, mem, infinite⟩
    have representable : document.Representable := document.wellFormed_iff.2 ⟨formed, finite⟩
    obtain ⟨text, -, -, -, written, -⟩ := representable.exists_lexes (Nat.le_refl document.depth)
    rw [refused] at written
    cases written
  · rintro ⟨double, mem, infinite⟩
    cases written : document.idl with
    | error reason => exact ⟨reason, rfl⟩
    | ok text => exact absurd (Document.isFinite_of_idl written double mem) infinite.not_isFinite

section Accepted

/-- A document is well-formed wherever its parts are. -/
theorem Document.wellFormed_map {ρ : Type} {admits : Double → Prop} (move : π → ρ)
    {document : Document π} :
    (document.map move).WellFormed admits ↔ document.WellFormed admits := by
  simp [WellFormed, definitions_map, Definition.wellFormed_map]

variable {limit : Int} {source : List Char}

/-- A document that is read directly is equal to itself, because its doubles are numbers. -/
theorem same_self_of_readStrictly {read : Document Position}
    (direct : readStrictly limit source = .ok read) :
    read.same read := by
  obtain ⟨lexemes, rest, definitions, lexes, -, spelled, rfl⟩ := readStrictly_eq_ok_iff.1 direct
  have formed := Document.wellFormed_map (positionIn source 0) |>.2 (spelled.wellFormed lexes)
  exact (Document.same_self_iff _).2 ((Document.wellFormed_iff _).1 formed).2

/-- A document that is read softly is that of definitions that are read off the text. -/
theorem exists_gives_of_readDefinitions {stop : SoftStop}
    (read : readDefinitions limit source = .ok stop) :
    ∃ definitions rest, (Reader.definitions limit.toNat).Gives source definitions rest ∧
      stop.document = (Document.ofDefinitions definitions).map (positionIn source 0) := by
  simp only [readDefinitions] at read
  cases opening : Reader.document limit.toNat source with
  | fail failure rest noted => simp [opening] at read
  | ok value rest noted =>
    obtain ⟨definitions, given, rfl⟩ := Reader.gives_map.1 ⟨noted, opening⟩
    rw [opening] at read
    obtain rfl := Except.ok.inj read
    exact ⟨definitions, rest, given, rfl⟩

/-- What is read of a text in any manner is spelled by lexemes that begin the text. -/
theorem Manner.exists_spelled_of_read {manner : Manner} {document : Document Position}
    (accepted : manner.read limit source = .ok document) :
    ∃ parted admits lexemes rest definitions, Lexes admits source lexemes rest ∧
      DefinitionsSpelling parted limit.toNat lexemes definitions ∧
        document = (Document.ofDefinitions definitions).map (positionIn source 0) := by
  cases manner with
  | strict =>
    have read : readStrictly limit source = .ok document := by
      cases outcome : readStrictly limit source <;>
        simp_all [Manner.read, Except.mapError]
    obtain ⟨lexemes, rest, definitions, lexes, -, spelled, rfl⟩ := readStrictly_eq_ok_iff.1 read
    exact ⟨_, _, lexemes, rest, definitions, lexes, spelled, rfl⟩
  | soft =>
    obtain ⟨stop, read, rfl⟩ : ∃ stop, readDefinitions limit source = .ok stop ∧
        document = stop.document := by
      cases outcome : readDefinitions limit source <;>
        simp_all [Manner.read, Except.mapError, Except.map]
    obtain ⟨definitions, rest, given, same⟩ := exists_gives_of_readDefinitions read
    obtain ⟨lexemes, after, lexes, spelled, -⟩ := Reader.spelled_definitions given
    exact ⟨_, _, lexemes, after, definitions, lexes, spelled, same⟩
  | tokens =>
    have read : readGrammatically limit source = .ok document := by
      cases outcome : readGrammatically limit source <;>
        simp_all [Manner.read, Except.mapError]
    obtain ⟨_, tokens, rfl⟩ := readGrammatically_eq_ok_iff.1 read
    obtain ⟨lexemes, rest, definitions, lexes, -, spelled, rfl, -⟩ := spelled_readByTokens tokens
    exact ⟨_, _, lexemes, rest, definitions, lexes, spelled, rfl⟩

/-- Every document that is read of a text in any manner is well-formed, its doubles are numbers, and
its containers are nested within the limit. It has a canonical text unless one of its doubles is
infinite, and its tree has plain data. -/
theorem Manner.wellFormed_of_read {manner : Manner} {document : Document Position}
    (accepted : manner.read limit source = .ok document) :
    document.WellFormed (· ≠ .nan) ∧ (document.depth : Int) ≤ max limit 0 ∧
      ((∃ reason, document.idl = .error reason) ↔
        ∃ double ∈ document.doubles, double.IsInfinite) ∧
      document.tree.documentData = .ok document.data := by
  obtain ⟨parted, admits, lexemes, rest, definitions, lexes, spelled, same⟩ :=
    manner.exists_spelled_of_read accepted
  have formed : document.WellFormed (· ≠ .nan) := by
    rw [same, Document.wellFormed_map]
    exact spelled.wellFormed lexes
  have shallow : document.depth ≤ limit.toNat := by
    rw [same, Document.depth_map]
    exact spelled.depth_le
  exact ⟨formed, by omega, formed.exists_idl_eq_error_iff, document.documentData_tree⟩

/-- A constant beyond all finite doubles is read, and what is read of it is well-formed. -/
theorem Manner.wellFormed_of_read_farConstant : ∃ document : Document Position,
    Manner.strict.read 0 "const double x = 1e999".toList = .ok document ∧
      document.WellFormed (· ≠ .nan) ∧ (document.depth : Int) ≤ max 0 0 ∧
      ((∃ reason, document.idl = .error reason) ↔
        ∃ double ∈ document.doubles, double.IsInfinite) ∧
      document.tree.documentData = .ok document.data := by
  have isOk : (Manner.strict.read 0 "const double x = 1e999".toList).isOk := by decide +kernel
  obtain ⟨document, accepted⟩ := exists_eq_ok_of_isOk isOk
  exact ⟨document, accepted, Manner.wellFormed_of_read accepted⟩

end Accepted

end ThriftIdl
