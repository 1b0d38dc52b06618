import ThriftIdl.Data.Document
import ThriftIdl.Proofs.Canonical.Accepted

/-!
# What plain data tell

Plain data tell a document from all others but for the places, and for maps in constants, which look
like lists of pairs: a constant is decoded from its data up to rewriting maps as such lists
(`ConstValue.constant_data`). A type is told by its text, because it can be read back from it
(`FieldType.idl_inj`); here it matters that no name of a type that is read is a base type. So two texts
whose documents have the same data have equal documents once all maps are rewritten
(`Manner.flattened_same_of_data`).
-/
namespace ThriftIdl

open Reader (fieldType gives_fieldType)

/-! ### Data that are the same -/

mutual
/-- Whether data are the same. Doubles are compared as numbers, and are no integers. -/
def Data.same : Data → Data → Bool
  | .null, .null => true
  | .flag value, .flag value' => value = value'
  | .int value, .int value' => value = value'
  | .double value, .double value' => value.same value'
  | .text text, .text text' => text = text'
  | .list items, .list items' => sameItems items items'
  | .record entries, .record entries' => sameEntries entries entries'
  | _, _ => false

/-- Whether items are the same one by one. -/
def sameItems : List Data → List Data → Bool
  | [], [] => true
  | item :: items, item' :: items' => item.same item' && sameItems items items'
  | _, _ => false

/-- Whether entries have the same names and values one by one. -/
def sameEntries : List (String × Data) → List (String × Data) → Bool
  | [], [] => true
  | (name, value) :: entries, (name', value') :: entries' =>
    name = name' && value.same value' && sameEntries entries entries'
  | _, _ => false
end

/-! ### Maps as lists of pairs -/

mutual
/-- A constant with every map rewritten as a list of pairs. -/
def ConstValue.flattened : ConstValue → ConstValue
  | .list values => .list (flattenedValues values)
  | .map entries => .list (flattenedEntries entries)
  | value => value

/-- Constants with every map rewritten. -/
def flattenedValues : List ConstValue → List ConstValue
  | [] => []
  | value :: values => value.flattened :: flattenedValues values

/-- The entries of a map as pairs. -/
def flattenedEntries : List (ConstValue × ConstValue) → List ConstValue
  | [] => []
  | (key, value) :: entries => .list [key.flattened, value.flattened] :: flattenedEntries entries
end

section Flattened

variable {π : Type}

/-- A field with the maps in its default value rewritten. -/
def Field.flattened (field : Field π) : Field π :=
  { field with defaultValue := field.defaultValue.map ConstValue.flattened }

/-- A function with the maps in its fields rewritten. -/
def FunctionDecl.flattened (function : FunctionDecl π) : FunctionDecl π :=
  { function with
    parameters := function.parameters.map Field.flattened
    exceptions := function.exceptions.map (List.map Field.flattened) }

/-- A constant declaration with the maps in its value rewritten. -/
def ConstDecl.flattened (decl : ConstDecl π) : ConstDecl π :=
  { decl with value := decl.value.flattened }

/-- A record with the maps in its fields rewritten. -/
def Record.flattened (decl : Record π) : Record π :=
  { decl with fields := decl.fields.map Field.flattened }

/-- A service with the maps in its functions rewritten. -/
def Service.flattened (decl : Service π) : Service π :=
  { decl with functions := decl.functions.map FunctionDecl.flattened }

/-- A document with the maps in all its constants rewritten as lists of pairs. -/
def Document.flattened (document : Document π) : Document π :=
  { document with
    consts := document.consts.map ConstDecl.flattened
    structs := document.structs.map Record.flattened
    unions := document.unions.map Record.flattened
    exceptions := document.exceptions.map Record.flattened
    services := document.services.map Service.flattened }

end Flattened

/-! ### Constants -/

/-- The name to which data refer. -/
def referredName : List (String × Data) → String
  | [(_, .text name)] => name
  | _ => ""

mutual
/-- The constant without maps that has given data. -/
def Data.constant : Data → ConstValue
  | .record entries => .name (referredName entries)
  | .text text => .literal text
  | .int value => .int value
  | .double value => .double value
  | .list items => .list (constantsOfItems items)
  | .null | .flag _ => .name ""

/-- The constants that have given data. -/
def constantsOfItems : List Data → List ConstValue
  | [] => []
  | item :: items => item.constant :: constantsOfItems items
end

mutual
/-- The data of a constant lead back to it, with every map rewritten. -/
theorem ConstValue.constant_data : ∀ value : ConstValue, value.data.constant = value.flattened
  | .name _ | .literal _ | .int _ | .double _ => rfl
  | .list values => congrArg ConstValue.list (constantsOfItems_dataOfValues values)
  | .map entries => congrArg ConstValue.list (constantsOfItems_dataOfEntries entries)

/-- The data of constants lead back to them. -/
theorem constantsOfItems_dataOfValues : ∀ values : List ConstValue,
    constantsOfItems (dataOfValues values) = flattenedValues values
  | [] => rfl
  | value :: values => by
    rw [dataOfValues, constantsOfItems, value.constant_data, constantsOfItems_dataOfValues values,
      flattenedValues]

/-- The data of the entries of a map lead back to pairs. -/
theorem constantsOfItems_dataOfEntries : ∀ entries : List (ConstValue × ConstValue),
    constantsOfItems (dataOfEntries entries) = flattenedEntries entries
  | [] => rfl
  | (key, value) :: entries => by
    simp only [dataOfEntries, constantsOfItems, Data.constant, key.constant_data, value.constant_data,
      constantsOfItems_dataOfEntries entries, flattenedEntries]
end

/-- Entries that are the same refer to the same name. -/
theorem referredName_eq_of_same {entries entries' : List (String × Data)}
    (same : sameEntries entries entries') : referredName entries = referredName entries' := by
  match entries, entries' with
  | [], [] => rfl
  | [], _ :: _ | _ :: _, [] => simp [sameEntries] at same
  | [(name, value)], [(name', value')] =>
    cases value <;> cases value' <;> simp_all [sameEntries, Data.same, referredName]
  | [_], _ :: _ :: _ | _ :: _ :: _, [_] => simp [sameEntries] at same
  | _ :: _ :: _, _ :: _ :: _ => simp [referredName]

/-- Doubles that are the same are approximately equal. -/
theorem Double.close_of_same {value value' : Double} (same : value.same value') :
    value.close value' := by
  cases value with
  | nan => simp [Double.same] at same
  | number negative m =>
    cases value' with
    | nan => simp [Double.same] at same
    | number negative' n => simp [Double.close, same]

mutual
/-- Data that are the same lead back to equal constants. -/
theorem Data.same_constant : ∀ {data data' : Data}, data.same data' →
    data.constant.tree.same data'.constant.tree
  | .record entries, data', same => by
    cases data' with
    | record entries' =>
      have names : referredName entries = referredName entries' :=
        referredName_eq_of_same (by simpa [Data.same] using same)
      simp [Data.constant, ConstValue.tree, Tree.plain, Tree.same, Tree.sameAll, names]
    | _ => simp [Data.same] at same
  | .list items, data', same => by
    cases data' with
    | list items' =>
      have inner : Tree.sameAll (treesOfValues (constantsOfItems items))
          (treesOfValues (constantsOfItems items')) :=
        sameAll_constantsOfItems (by simpa [Data.same] using same)
      simp [Data.constant, ConstValue.tree, Tree.plain, Tree.same, Tree.sameAll, inner]
    | _ => simp [Data.same] at same
  | .double value, data', same => by
    cases data' with
    | double value' =>
      have close := Double.close_of_same (by simpa [Data.same] using same)
      simp [Data.constant, ConstValue.tree, Tree.plain, Tree.same, Tree.sameAll, close]
    | _ => simp [Data.same] at same
  | .null, data', same | .flag _, data', same | .int _, data', same | .text _, data', same => by
    cases data' <;>
      simp_all [Data.same, Data.constant, ConstValue.tree, Tree.plain, Tree.same, Tree.sameAll]

/-- Items that are the same lead back to equal constants. -/
theorem sameAll_constantsOfItems : ∀ {items items' : List Data}, sameItems items items' →
    Tree.sameAll (treesOfValues (constantsOfItems items)) (treesOfValues (constantsOfItems items'))
  | [], items', same => by
    cases items' with
    | nil => rfl
    | cons => simp [sameItems] at same
  | item :: items, items', same => by
    cases items' with
    | nil => simp [sameItems] at same
    | cons item' items' =>
      have both : item.same item' ∧ sameItems items items' := by simpa [sameItems] using same
      have first := Data.same_constant both.1
      have others := sameAll_constantsOfItems both.2
      simp [constantsOfItems, treesOfValues, Tree.sameAll, first, others]
end

/-- Constants with the same data are equal once all maps are rewritten. -/
theorem ConstValue.same_of_data {value value' : ConstValue} (same : value.data.same value'.data) :
    value.flattened.tree.same value'.flattened.tree := by
  have constants := Data.same_constant same
  rwa [value.constant_data, value'.constant_data] at constants

/-! ### Types -/

/-- A well-formed type is read back from its text, before a bracket that closes. -/
theorem FieldType.WellFormed.gives_idl {type : FieldType} {depth : Nat} (formed : type.WellFormed)
    (shallow : type.depth ≤ depth) :
    (fieldType depth).Gives (skip (type.idl ++ [Mark.moreThan.char])) type
      [Mark.moreThan.char] := by
  obtain ⟨lexemes, lexes, spelled, -⟩ := formed.spells .nil (closed_mark .moreThan [])
  obtain ⟨_, here, ⟨mark, rfl, isMark⟩, -⟩ :=
    spells_mark .moreThan .nil (show Anywhere [] from trivial)
  obtain ⟨_, atMark, rfl⟩ := here fun _ fits => fits
  exact gives_fieldType depth (lexes fun _ fits => fits) (spelled.mono shallow)
    (.mark atMark (.inr isMark))

/-- Well-formed types with the same text are equal. -/
theorem FieldType.idl_inj {type type' : FieldType} (formed : type.WellFormed)
    (formed' : type'.WellFormed) (same : type.idl = type'.idl) : type = type' := by
  have read := formed.gives_idl (Nat.le_max_left type.depth type'.depth)
  have read' := formed'.gives_idl (Nat.le_max_right type.depth type'.depth)
  rw [← same] at read'
  exact (read.unique read').1

/-- A type is equal to itself. -/
theorem FieldType.same_tree_self (type : FieldType) : type.tree.same type.tree := by
  rw [Tree.same_self_iff, type.doubles_tree]
  exact fun _ mem => absurd mem List.not_mem_nil

/-- Well-formed types with the same data are equal. -/
theorem FieldType.same_of_data {type type' : FieldType} (formed : type.WellFormed)
    (formed' : type'.WellFormed) (same : type.data.same type'.data) : type.tree.same type'.tree := by
  have texts : String.ofList type.idl = String.ofList type'.idl := by
    simpa [FieldType.data, Data.same] using same
  rw [FieldType.idl_inj formed formed' (String.ofList_injective texts)]
  exact type'.same_tree_self

/-! ### Lists, and what may be missing -/

section Parts

variable {α : Type} {data : α → Data} {tree : α → Tree}

/-- Lists with the same data are equal if this holds of what they hold. -/
theorem sameAll_of_data {things things' : List α}
    (each : ∀ thing ∈ things, ∀ thing' ∈ things',
      (data thing).same (data thing') → (tree thing).same (tree thing'))
    (same : sameItems (things.map data) (things'.map data)) :
    Tree.sameAll (things.map tree) (things'.map tree) := by
  induction things generalizing things' with
  | nil =>
    cases things' with
    | nil => rfl
    | cons => simp [sameItems] at same
  | cons thing things ih =>
    cases things' with
    | nil => simp [sameItems] at same
    | cons thing' things' =>
      have both : (data thing).same (data thing') ∧ sameItems (things.map data) (things'.map data) := by
        simpa [sameItems] using same
      have first := each thing List.mem_cons_self thing' List.mem_cons_self both.1
      have others := ih (fun thing mem thing' mem' =>
        each thing (List.mem_cons_of_mem _ mem) thing' (List.mem_cons_of_mem _ mem')) both.2
      simp [Tree.sameAll, first, others]

/-- What may be missing is equal if its data are, and if nothing that is there looks missing. -/
theorem same_ofOption_of_data {thing thing' : Option α} (there : ∀ thing, data thing ≠ .null)
    (each : ∀ first ∈ thing, ∀ second ∈ thing',
      (data first).same (data second) → (tree first).same (tree second))
    (same : (Data.ofOption (thing.map data)).same (.ofOption (thing'.map data))) :
    (Tree.ofOption (thing.map tree)).same (.ofOption (thing'.map tree)) := by
  have missing : ∀ {something : Data}, something ≠ .null →
      something.same .null = false ∧ Data.null.same something = false := by
    intro something some
    cases something <;> simp_all [Data.same]
  cases thing with
  | none =>
    cases thing' with
    | none => rfl
    | some second => simp [Data.ofOption, missing (there second)] at same
  | some first =>
    cases thing' with
    | none => simp [Data.ofOption, missing (there first)] at same
    | some second => exact each first rfl second rfl same

end Parts

/-! ### Definitions -/

section Definitions

variable {admits : Double → Prop}

/-- Integers that may be missing are equal if their data are. -/
theorem same_number_of_data {number number' : Option Int}
    (same : (Data.ofOption (number.map .int)).same (.ofOption (number'.map .int))) :
    (Tree.ofOption (number.map .int)).same (.ofOption (number'.map .int)) := by
  refine same_ofOption_of_data (fun _ => by simp) (fun n _ n' _ equal => ?_) same
  simpa [Data.same, Tree.same] using equal

/-- Constants that may be missing are equal, once the maps in them are rewritten, if their entries
are. -/
theorem same_default_of_data {value value' : Option ConstValue}
    (same : sameEntries (value.elim [] fun value => [("default", value.data)])
      (value'.elim [] fun value => [("default", value.data)])) :
    (Tree.ofOption (value.map (ConstValue.tree ∘ ConstValue.flattened))).same
      (.ofOption (value'.map (ConstValue.tree ∘ ConstValue.flattened))) := by
  cases value with
  | none =>
    cases value' with
    | none => rfl
    | some value' => simp [sameEntries] at same
  | some value =>
    cases value' with
    | none => simp [sameEntries] at same
    | some value' => exact ConstValue.same_of_data (by simpa [sameEntries] using same)

/-- Fields with the same data are equal once the maps in them are rewritten. -/
theorem Field.same_of_data {field field' : Field Position} (formed : field.WellFormed admits)
    (formed' : field'.WellFormed admits) (same : field.data.same field'.data) :
    field.flattened.tree.same field'.flattened.tree := by
  simp only [Field.data, Data.same, List.cons_append, List.nil_append, sameEntries, decide_true,
    Bool.true_and, Bool.and_eq_true, decide_eq_true_eq] at same
  obtain ⟨id, name, type, requiredness, value⟩ := same
  have requirednesses : field.requiredness = field'.requiredness := by
    cases first : field.requiredness <;> cases second : field'.requiredness <;>
      simp_all [Requiredness.data, Data.same]
  have types := FieldType.same_of_data formed.type formed'.type type
  have ids := same_number_of_data id
  have values := same_default_of_data value
  have requirement : field'.requiredness.tree.same field'.requiredness.tree := by
    cases field'.requiredness <;> rfl
  simp [Field.flattened, Field.tree, Tree.same, Tree.sameAll, name, requirednesses, types, ids, values,
    requirement]

/-- Lists of fields with the same data are equal once the maps in them are rewritten. -/
theorem sameAll_fields_of_data {fields fields' : List (Field Position)}
    (formed : ∀ field ∈ fields, field.WellFormed admits)
    (formed' : ∀ field ∈ fields', field.WellFormed admits)
    (same : sameItems (fields.map Field.data) (fields'.map Field.data)) :
    Tree.sameAll (fields.map (Field.tree ∘ Field.flattened))
      (fields'.map (Field.tree ∘ Field.flattened)) :=
  sameAll_of_data (fun field mem field' mem' =>
    Field.same_of_data (formed field mem) (formed' field' mem')) same

/-- Functions with the same data are equal once the maps in them are rewritten. -/
theorem FunctionDecl.same_of_data {function function' : FunctionDecl Position}
    (formed : function.WellFormed admits) (formed' : function'.WellFormed admits)
    (same : function.data.same function'.data) :
    function.flattened.tree.same function'.flattened.tree := by
  simp only [FunctionDecl.data, Data.same, sameEntries, decide_true, Bool.true_and, Bool.and_true,
    Bool.and_eq_true, decide_eq_true_eq] at same
  obtain ⟨name, oneway, returns, parameters, exceptions⟩ := same
  have results := same_ofOption_of_data (fun _ => by simp [FieldType.data])
    (fun type mem type' mem' =>
      FieldType.same_of_data (formed.returns type mem).1 (formed'.returns type' mem').1) returns
  have taken := sameAll_fields_of_data formed.parameters formed'.parameters parameters
  have thrown : (Tree.ofOption ((function.exceptions.map (List.map Field.flattened)).map
      fun fields => .list (fields.map Field.tree))).same
      (.ofOption ((function'.exceptions.map (List.map Field.flattened)).map
        fun fields => .list (fields.map Field.tree))) := by
    rw [Option.map_map, Option.map_map]
    refine same_ofOption_of_data (fun _ => by simp) (fun fields mem fields' mem' equal => ?_) exceptions
    simp only [Data.same] at equal
    have inner :=
      sameAll_fields_of_data (formed.exceptions fields mem) (formed'.exceptions fields' mem') equal
    simp [Tree.same, inner]
  simpa [FunctionDecl.flattened, FunctionDecl.tree, Tree.same, Tree.sameAll, name, oneway, results,
    taken] using thrown

/-- Paths with the same data are equal, whatever is at them. -/
theorem sameAll_paths_of_data (label : Label) {paths paths' : List String}
    (same : sameItems (paths.map .text) (paths'.map .text)) :
    Tree.sameAll (paths.map fun path => .plain label [.text path])
      (paths'.map fun path => .plain label [.text path]) := by
  refine sameAll_of_data (fun path _ path' _ equal => ?_) same
  simpa [Data.same, Tree.plain, Tree.same, Tree.sameAll] using equal

/-- Namespaces with the same data are equal. -/
theorem Namespace.same_of_data {decl decl' : Namespace} (same : decl.data.same decl'.data) :
    decl.tree.same decl'.tree := by
  simpa [Namespace.data, Data.same, sameEntries, Namespace.tree, Tree.plain, Tree.same,
    Tree.sameAll] using same

/-- Second names for types are equal if their data are the same. -/
theorem Typedef.same_of_data {decl decl' : Typedef Position} (formed : decl.old.WellFormed)
    (formed' : decl'.old.WellFormed) (same : decl.data.same decl'.data) :
    decl.tree.same decl'.tree := by
  simp only [Typedef.data, Data.same, sameEntries, decide_true, Bool.true_and, Bool.and_true,
    Bool.and_eq_true, decide_eq_true_eq] at same
  have types := FieldType.same_of_data formed formed' same.2
  simp [Typedef.tree, Tree.same, Tree.sameAll, same.1, types]

/-- Constant declarations with the same data are equal once the maps in them are rewritten. -/
theorem ConstDecl.same_of_data {decl decl' : ConstDecl Position} (formed : decl.type.WellFormed)
    (formed' : decl'.type.WellFormed) (same : decl.data.same decl'.data) :
    decl.flattened.tree.same decl'.flattened.tree := by
  simp only [ConstDecl.data, Data.same, sameEntries, decide_true, Bool.true_and, Bool.and_true,
    Bool.and_eq_true, decide_eq_true_eq] at same
  obtain ⟨name, type, value⟩ := same
  have types := FieldType.same_of_data formed formed' type
  have values := ConstValue.same_of_data value
  simp [ConstDecl.flattened, ConstDecl.tree, Tree.same, Tree.sameAll, name, types, values]

/-- Enumerations with the same data are equal. -/
theorem EnumDecl.same_of_data {decl decl' : EnumDecl Position} (same : decl.data.same decl'.data) :
    decl.tree.same decl'.tree := by
  simp only [EnumDecl.data, Data.same, sameEntries, decide_true, Bool.true_and, Bool.and_true,
    Bool.and_eq_true, decide_eq_true_eq] at same
  have values : Tree.sameAll (decl.values.map EnumValue.tree) (decl'.values.map EnumValue.tree) := by
    refine sameAll_of_data (fun value _ value' _ equal => ?_) same.2
    simp only [EnumValue.data, Data.same, sameEntries, decide_true, Bool.true_and, Bool.and_true,
      Bool.and_eq_true, decide_eq_true_eq] at equal
    have numbers := same_number_of_data equal.2
    simp [EnumValue.tree, Tree.same, Tree.sameAll, equal.1, numbers]
  simp [EnumDecl.tree, Tree.same, Tree.sameAll, same.1, values]

/-- Records of a kind with the same data are equal once the maps in them are rewritten. -/
theorem Record.same_of_data (kind : RecordKind) {decl decl' : Record Position}
    (formed : ∀ field ∈ decl.fields, field.WellFormed admits)
    (formed' : ∀ field ∈ decl'.fields, field.WellFormed admits)
    (same : decl.data.same decl'.data) :
    (decl.flattened.tree kind).same (decl'.flattened.tree kind) := by
  simp only [Record.data, Data.same, sameEntries, decide_true, Bool.true_and, Bool.and_true,
    Bool.and_eq_true, decide_eq_true_eq] at same
  have fields := sameAll_fields_of_data formed formed' same.2
  simp [Record.flattened, Record.tree, Tree.same, Tree.sameAll, same.1, fields]

/-- Services with the same data are equal once the maps in them are rewritten. -/
theorem Service.same_of_data {decl decl' : Service Position}
    (formed : ∀ function ∈ decl.functions, function.WellFormed admits)
    (formed' : ∀ function ∈ decl'.functions, function.WellFormed admits)
    (same : decl.data.same decl'.data) : decl.flattened.tree.same decl'.flattened.tree := by
  simp only [Service.data, Data.same, sameEntries, decide_true, Bool.true_and, Bool.and_true,
    Bool.and_eq_true, decide_eq_true_eq] at same
  obtain ⟨name, base, functions⟩ := same
  have bases : (Tree.ofOption (decl.base.map .text)).same (.ofOption (decl'.base.map .text)) := by
    refine same_ofOption_of_data (fun _ => by simp) (fun name _ name' _ equal => ?_) base
    simpa [Data.same, Tree.same] using equal
  have all : Tree.sameAll (decl.functions.map (FunctionDecl.tree ∘ FunctionDecl.flattened))
      (decl'.functions.map (FunctionDecl.tree ∘ FunctionDecl.flattened)) :=
    sameAll_of_data (fun function mem function' mem' =>
      FunctionDecl.same_of_data (formed function mem) (formed' function' mem')) functions
  simp [Service.flattened, Service.tree, Tree.same, Tree.sameAll, name, bases, all]

/-- Well-formed documents with the same data are equal once the maps in them are rewritten. -/
theorem Document.same_of_data {document document' : Document Position}
    (formed : document.WellFormed admits) (formed' : document'.WellFormed admits)
    (same : document.data.same document'.data) : document.flattened.same document'.flattened := by
  simp only [Document.data, Data.same, sameEntries, decide_true, Bool.true_and, Bool.and_true,
    Bool.and_eq_true] at same
  obtain ⟨includes, cppIncludes, namespaces, typedefs, consts, enums, structs, unions, exceptions,
    services⟩ := same
  -- The records of all kinds are told alike.
  have records : ∀ (kind : RecordKind) {decls decls' : List (Record Position)},
      (∀ decl ∈ decls, .record kind decl ∈ document.definitions) →
      (∀ decl ∈ decls', .record kind decl ∈ document'.definitions) →
      sameItems (decls.map Record.data) (decls'.map Record.data) →
      Tree.sameAll (decls.map (Record.tree kind ∘ Record.flattened))
        (decls'.map (Record.tree kind ∘ Record.flattened)) := fun kind _ _ among among' =>
    sameAll_of_data fun decl mem decl' mem' => Record.same_of_data kind
      (formed _ (among decl mem)).2 (formed' _ (among' decl' mem')).2
  have paths := sameAll_paths_of_data .inclusion includes
  have headers := sameAll_paths_of_data .cppInclusion cppIncludes
  have spaces : Tree.sameAll (document.namespaces.map Namespace.tree)
      (document'.namespaces.map Namespace.tree) :=
    sameAll_of_data (fun _ _ _ _ => Namespace.same_of_data) namespaces
  have aliases : Tree.sameAll (document.typedefs.map Typedef.tree)
      (document'.typedefs.map Typedef.tree) :=
    sameAll_of_data (fun decl mem decl' mem' => Typedef.same_of_data
      (formed (.typedef decl) (by simp [definitions, mem])).1
      (formed' (.typedef decl') (by simp [definitions, mem'])).1) typedefs
  have constants : Tree.sameAll (document.consts.map (ConstDecl.tree ∘ ConstDecl.flattened))
      (document'.consts.map (ConstDecl.tree ∘ ConstDecl.flattened)) :=
    sameAll_of_data (fun decl mem decl' mem' => ConstDecl.same_of_data
      (formed (.const decl) (by simp [definitions, mem])).1
      (formed' (.const decl') (by simp [definitions, mem'])).1) consts
  have enumerations : Tree.sameAll (document.enums.map EnumDecl.tree)
      (document'.enums.map EnumDecl.tree) :=
    sameAll_of_data (fun _ _ _ _ => EnumDecl.same_of_data) enums
  have offered : Tree.sameAll (document.services.map (Service.tree ∘ Service.flattened))
      (document'.services.map (Service.tree ∘ Service.flattened)) :=
    sameAll_of_data (fun decl mem decl' mem' => Service.same_of_data
      (formed (.service decl) (by simp [definitions, mem])).2.2
      (formed' (.service decl') (by simp [definitions, mem'])).2.2) services
  have structTrees := records .struct (fun decl mem => by simp [definitions, mem])
    (fun decl mem => by simp [definitions, mem]) structs
  have unionTrees := records .union (fun decl mem => by simp [definitions, mem])
    (fun decl mem => by simp [definitions, mem]) unions
  have exceptionTrees := records .exception (fun decl mem => by simp [definitions, mem])
    (fun decl mem => by simp [definitions, mem]) exceptions
  simp only [Tree.plain] at paths headers
  simp [Document.same, Document.flattened, Document.tree, Tree.plain, Tree.same, Tree.sameAll, paths,
    headers, spaces, aliases, constants, enumerations, structTrees, unionTrees, exceptionTrees, offered]

end Definitions

section Read

variable {limit limit' : Int} {source source' : List Char}

/-- Two texts whose documents have the same data have equal documents once every map is rewritten as a
list of pairs, in whatever manner they are read. -/
theorem Manner.flattened_same_of_data {manner manner' : Manner} {document document' : Document Position}
    (accepted : manner.read limit source = .ok document)
    (accepted' : manner'.read limit' source' = .ok document')
    (same : document.data.same document'.data) : document.flattened.same document'.flattened := by
  have formed : ∀ {manner : Manner} {limit : Int} {source : List Char} {document : Document Position},
      manner.read limit source = .ok document → document.WellFormed (· ≠ .nan) := by
    intro manner limit source document accepted
    obtain ⟨_, _, lexemes, rest, definitions, lexes, spelled, equal⟩ :=
      manner.exists_spelled_of_read accepted
    rw [equal, Document.wellFormed_map]
    exact spelled.wellFormed lexes
  exact Document.same_of_data (formed accepted) (formed accepted') same

/-- A map and a list of a pair have the same data, and so do the two noughts. -/
theorem Manner.flattened_same_of_data_pairs : ∃ document document' : Document Position,
    Manner.strict.read 3 "const map<i8,list<x>> m = \x7b'k': [0.0]\x7d".toList = .ok document ∧
      Manner.tokens.read 3 "const map<i8, list<x>> m = [['k', [-0.0]]];".toList = .ok document' ∧
      document.data.same document'.data ∧ document.same document' = false ∧
      document.flattened.same document'.flattened := by
  have told : (do
      let document ← (Manner.strict.read 3
        "const map<i8,list<x>> m = \x7b'k': [0.0]\x7d".toList).toOption
      let document' ← (Manner.tokens.read 3
        "const map<i8, list<x>> m = [['k', [-0.0]]];".toList).toOption
      return (document.data.same document'.data, document.same document')) = some (true, false) := by
    decide +kernel
  cases read : Manner.strict.read 3 "const map<i8,list<x>> m = \x7b'k': [0.0]\x7d".toList with
  | error rejected =>
    rw [read] at told
    cases told
  | ok document =>
    rw [read] at told
    cases read' : Manner.tokens.read 3 "const map<i8, list<x>> m = [['k', [-0.0]]];".toList with
    | error rejected =>
      rw [read'] at told
      cases told
    | ok document' =>
      rw [read'] at told
      have both : (document.data.same document'.data, document.same document') = (true, false) :=
        Option.some.inj told
      obtain ⟨same, different⟩ := Prod.mk.inj both
      exact ⟨document, document', rfl, rfl, same, different, flattened_same_of_data read read' same⟩

end Read

end ThriftIdl
