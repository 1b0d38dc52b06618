import ThriftIdl.Check
import ThriftIdl.Proofs.Grammar.WellFormed
import ThriftIdl.Proofs.Json.Printed
import ThriftIdl.Proofs.Text.Utf8

/-!
# Documents as JSON

The data of a document has the doubles of the document (`Document.doubles_data`). What is printed of
a document that is accepted is therefore a JSON text exactly if all its doubles are finite, and it
stands for the data of the document and nothing else (`CheckSettings.checkFile_json`).
-/
namespace ThriftIdl

section Doubles

variable {π : Type}

mutual
/-- The data of a constant has the doubles of the constant. -/
theorem ConstValue.doubles_data : ∀ value : ConstValue, value.data.doubles = value.doubles
  | .name _ | .literal _ | .int _ | .double _ => rfl
  | .list values => doublesOfItems_dataOfValues values
  | .map entries => doublesOfItems_dataOfEntries entries

/-- The data of constants has their doubles. -/
theorem doublesOfItems_dataOfValues : ∀ values : List ConstValue,
    doublesOfItems (dataOfValues values) = doublesOfValues values
  | [] => rfl
  | value :: values => by
    rw [dataOfValues, doublesOfItems, value.doubles_data, doublesOfItems_dataOfValues values,
      doublesOfValues]

/-- The pairs of the entries of a map have their doubles. -/
theorem doublesOfItems_dataOfEntries : ∀ entries : List (ConstValue × ConstValue),
    doublesOfItems (dataOfEntries entries) = doublesOfEntries entries
  | [] => rfl
  | (key, value) :: entries => by
    simp only [dataOfEntries, doublesOfItems, Data.doubles, key.doubles_data, value.doubles_data,
      doublesOfItems_dataOfEntries entries, doublesOfEntries, List.append_nil]
end

/-- The data of things has the doubles of the things. -/
theorem doublesOfItems_map {α : Type} {data : α → Data} {doubles : α → List Double}
    (each : ∀ thing, (data thing).doubles = doubles thing) (things : List α) :
    doublesOfItems (things.map data) = things.flatMap doubles := by
  rw [doublesOfItems_eq, List.flatMap_map]
  exact congrArg things.flatMap (funext each)

/-- The data of things without doubles has none. -/
theorem doublesOfItems_map_eq_nil {α : Type} {data : α → Data}
    (each : ∀ thing, (data thing).doubles = []) (things : List α) :
    doublesOfItems (things.map data) = [] := by
  rw [doublesOfItems_map each]
  exact List.flatMap_eq_nil_iff.2 fun _ _ => rfl

/-- The data of what holds no doubles, and may be missing, has none. -/
theorem doubles_ofOption_map {α : Type} {data : α → Data} (each : ∀ thing, (data thing).doubles = [])
    (thing : Option α) : (Data.ofOption (thing.map data)).doubles = [] := by
  cases thing with
  | none => rfl
  | some thing => exact each thing

/-- The data of a field has the doubles of its default value. -/
theorem Field.doubles_data (field : Field π) : field.data.doubles = field.doubles := by
  have id := doubles_ofOption_map (fun n => (rfl : (Data.int n).doubles = [])) field.id
  have word : field.requiredness.data.doubles = [] := by cases field.requiredness <;> rfl
  rw [data, doubles, Data.doubles, doublesOfRecord_eq]
  cases field.defaultValue with
  | none => simp [id, word, FieldType.data, Data.doubles]
  | some value => simp [id, word, FieldType.data, Data.doubles, value.doubles_data]

/-- The data of a function has the doubles of its parameters and its exceptions. -/
theorem FunctionDecl.doubles_data (function : FunctionDecl π) :
    function.data.doubles = function.doubles := by
  have result := doubles_ofOption_map (fun type => (rfl : (FieldType.data type).doubles = []))
    function.returns
  have fields := @doublesOfItems_map (Field π) _ _ Field.doubles_data
  have thrown : (Data.ofOption (function.exceptions.map fun fields =>
      .list (fields.map Field.data))).doubles = (function.exceptions.getD []).flatMap Field.doubles := by
    cases function.exceptions with
    | none => rfl
    | some exceptions => exact fields exceptions
  simp [data, doubles, Data.doubles, doublesOfRecord, result, fields, thrown]

/-- The data of an enumeration has no doubles. -/
theorem EnumDecl.doubles_data (decl : EnumDecl π) : decl.data.doubles = [] := by
  have value : ∀ value : EnumValue π, value.data.doubles = [] := by
    intro value
    have number := doubles_ofOption_map (fun n => (rfl : (Data.int n).doubles = [])) value.value
    simp [EnumValue.data, Data.doubles, doublesOfRecord, number]
  simp [data, Data.doubles, doublesOfRecord, doublesOfItems_map_eq_nil value]

/-- The data of a record has the doubles of its fields. -/
theorem Record.doubles_data (decl : Record π) :
    decl.data.doubles = decl.fields.flatMap Field.doubles := by
  simp [data, Data.doubles, doublesOfRecord, doublesOfItems_map Field.doubles_data]

/-- The data of a service has the doubles of its functions. -/
theorem Service.doubles_data (decl : Service π) :
    decl.data.doubles = decl.functions.flatMap FunctionDecl.doubles := by
  have base := doubles_ofOption_map (fun name => (rfl : (Data.text name).doubles = [])) decl.base
  simp [data, Data.doubles, doublesOfRecord, base, doublesOfItems_map FunctionDecl.doubles_data]

/-- The data of a document has the doubles of the document. -/
theorem Document.doubles_data (document : Document π) : document.data.doubles = document.doubles := by
  have texts := doublesOfItems_map_eq_nil fun text => (rfl : (Data.text text).doubles = [])
  have namespaces := doublesOfItems_map_eq_nil fun decl => (rfl : (Namespace.data decl).doubles = [])
  have typedefs := doublesOfItems_map_eq_nil
    fun decl => (rfl : (@Typedef.data π decl).doubles = [])
  have consts : ∀ decl : ConstDecl π, decl.data.doubles = decl.value.doubles := by
    intro decl
    simp [ConstDecl.data, Data.doubles, doublesOfRecord, FieldType.data, decl.value.doubles_data]
  have none : ∀ {α : Type} (things : List α), (things.flatMap fun _ => ([] : List Double)) = [] :=
    fun things => List.flatMap_eq_nil_iff.2 fun _ _ => rfl
  simp [data, doubles, definitions, Data.doubles, doublesOfRecord, texts, namespaces, typedefs,
    doublesOfItems_map consts, doublesOfItems_map_eq_nil EnumDecl.doubles_data,
    doublesOfItems_map Record.doubles_data, doublesOfItems_map Service.doubles_data,
    List.flatMap_map, Definition.doubles, none]

end Doubles

/-- What is known to give something with a property gives it. -/
theorem exists_of_any_toOption {α ε : Type} {outcome : Except ε α} {holds : α → Bool}
    (any : outcome.toOption.any holds) : ∃ value, outcome = .ok value ∧ holds value := by
  cases outcome with
  | error reason => cases any
  | ok value => exact ⟨value, rfl, any⟩

namespace CheckSettings

variable {settings : CheckSettings} {path : Path} {entry : Entry} {source : List Char}
  {document : Document Position}

/-- What is printed of a document that is accepted if its data is asked for: a JSON text that stands
for the data and nothing else if all doubles of the document are finite, and no JSON text otherwise.
The canonical text stands after it if that is asked for, too. -/
theorem checkFile_json (asked : settings.json = true) (found : entry.source path = .ok source)
    (accepted : settings.manner.read (settings.limit.getD 0) source = .ok document) :
    ∃ json aside,
      (∀ idl, (if settings.format then document.idl else .ok []) = .ok idl →
        settings.checkFile path entry = .ok ⟨false, json ++ idl, aside⟩) ∧
      ∀ data, Json.IsText json data ↔
        data = document.data ∧ ∀ double ∈ document.doubles, double.isFinite := by
  refine ⟨document.data.json 0 ++ ['\n'], if settings.verbose && !settings.tokens then
    stopNote (settings.limit.getD 0) source else [], fun idl canonical => ?_, fun data => ?_⟩
  · have printed : settings.printed document = .ok (document.data.json 0 ++ ['\n'] ++ idl) := by
      simp only [CheckSettings.printed, asked]
      split at canonical
      next format =>
        simp only [format, canonical]
        rfl
      next format =>
        simp only [format, canonical]
        rfl
    simp only [checkFile, found, checkSource, accepted, printed]
    rfl
  · have lineEnd : Json.Blank ['\n'] := by simp [Json.Blank, Json.isBlank]
    rw [Json.isText_json_iff lineEnd, document.doubles_data]

/-- A constant of one half is printed as a JSON text that stands for its document, and what is printed
of a constant beyond all finite doubles is no JSON text. -/
theorem checkFile_json_halfAndFar :
    (∃ document json aside,
      Manner.strict.read 64 "const double X = 0.5".toList = .ok document ∧
      checkFile ⟨true, false, false, some 64, false⟩ (Path.ofText "a.thrift".toList)
        (.file ("const double X = 0.5".toList.flatMap String.utf8EncodeChar)) =
          .ok ⟨false, json, aside⟩ ∧
      ∀ data, Json.IsText json data ↔ data = document.data) ∧
    (∃ document json aside,
      Manner.strict.read 64 "const double X = 1e999".toList = .ok document ∧
      checkFile ⟨true, false, false, some 64, false⟩ (Path.ofText "a.thrift".toList)
        (.file ("const double X = 1e999".toList.flatMap String.utf8EncodeChar)) =
          .ok ⟨false, json, aside⟩ ∧
      ∀ data, ¬ Json.IsText json data) := by
  have found : ∀ {path : Path} (text : List Char), Text.unixLines text = text →
      (Entry.file (text.flatMap String.utf8EncodeChar)).source path = .ok text := by
    intro path text same
    simp only [Entry.source, Text.decode_eq_ok_iff.2 rfl, same]
  constructor
  · have finite : (Manner.strict.read 64 "const double X = 0.5".toList).toOption.any
        fun document => document.doubles.all Double.isFinite := by decide +kernel
    obtain ⟨document, accepted, finite⟩ := exists_of_any_toOption finite
    obtain ⟨json, aside, checked, texts⟩ :=
      @checkFile_json ⟨true, false, false, some 64, false⟩ (Path.ofText "a.thrift".toList) _ _ _ rfl
        (found "const double X = 0.5".toList (by decide +kernel)) accepted
    refine ⟨document, json, aside, accepted, ?_, fun data => ?_⟩
    · simpa using checked [] rfl
    · rw [texts]
      exact and_iff_left (List.all_eq_true.1 finite)
  · have infinite : (Manner.strict.read 64 "const double X = 1e999".toList).toOption.any
        fun document => !document.doubles.all Double.isFinite := by decide +kernel
    obtain ⟨document, accepted, infinite⟩ := exists_of_any_toOption infinite
    obtain ⟨json, aside, checked, texts⟩ :=
      @checkFile_json ⟨true, false, false, some 64, false⟩ (Path.ofText "a.thrift".toList) _ _ _ rfl
        (found "const double X = 1e999".toList (by decide +kernel)) accepted
    refine ⟨document, json, aside, accepted, ?_, fun data text => ?_⟩
    · simpa using checked [] rfl
    · rw [List.all_eq_true.2 ((texts data).1 text).2] at infinite
      cases infinite

end CheckSettings
end ThriftIdl
