import Mathlib.Data.List.Forall2
import ThriftIdl.Tree.Agreement
import ThriftIdl.Tree.Data

/-!
# Plain data of the trees of documents

The tree of a document has the plain data of the document (`Document.documentData_tree`), so that
nothing in it stops the making of the data.
-/
namespace ThriftIdl

open ThriftIdl.Tree (constantData constantsData entriesData fieldData fieldsData functionData typeData
  plain)

section Values

/-- The tree of a type has the data of the type. -/
theorem FieldType.typeData_tree (type : FieldType) : type.tree.typeData = .ok type.data := by
  rw [typeData, type.typeText_tree]
  rfl

mutual
/-- The tree of a constant has the data of the constant. -/
theorem ConstValue.constantData_tree : (value : ConstValue) →
    value.tree.constantData = .ok value.data
  | .name _ | .literal _ | .int _ | .double _ => rfl
  | .list values => by
    simp only [ConstValue.tree, plain, constantData, constantsData_trees values]
    rfl
  | .map entries => by
    simp only [ConstValue.tree, plain, constantData, entriesData_trees entries]
    rfl

/-- The trees of constants have their data. -/
theorem constantsData_trees : (values : List ConstValue) →
    constantsData (treesOfValues values) = .ok (dataOfValues values)
  | [] => rfl
  | value :: values => by
    simp only [treesOfValues, constantsData, value.constantData_tree, constantsData_trees values]
    rfl

/-- The trees of entries have their data. -/
theorem entriesData_trees : (entries : List (ConstValue × ConstValue)) →
    entriesData (treesOfEntries entries) = .ok (dataOfEntries entries)
  | [] => rfl
  | (key, value) :: entries => by
    simp only [treesOfEntries, entriesData, key.constantData_tree, value.constantData_tree,
      entriesData_trees entries]
    rfl
end

end Values

section Attributes

variable {α : Type} {tree value : Tree} {name : String}

/-- The value of an attribute of a node. -/
theorem Tree.valueOf_node {label : Label} {values : List Tree} {place : Position}
    (found : ((label.attributes.map Attribute.name).zip values).lookup name = some value) :
    (Tree.node label values place).valueOf name = .ok value := by
  simp only [Tree.valueOf, Tree.valueOf?, found]

/-- An attribute of a node has the data of its value. -/
theorem Tree.plainData_node {label : Label} {values : List Tree} {place : Position} {data : Data}
    (found : ((label.attributes.map Attribute.name).zip values).lookup name = some value)
    (same : value.data = data) : (Tree.node label values place).plainData name = .ok data := by
  rw [Tree.plainData, Tree.valueOf_node found, ← same]
  rfl

/-- What is used of changed things is what each of them is used for. -/
theorem mapM_map_eq_ok {β γ ε : Type} {change : α → β} {use : β → Except ε γ} {used : α → γ}
    (each : ∀ thing, use (change thing) = .ok (used thing)) (things : List α) :
    (things.map change).mapM use = .ok (things.map used) := by
  induction things with
  | nil => rfl
  | cons thing things ih =>
    rw [List.map_cons, List.mapM_cons, each, ih]
    rfl

/-- What may be missing is used if it is there. -/
theorem optional_ofOption {β : Type} {use : Tree → Except Misfit β} {change : α → Tree}
    {used : α → β} (each : ∀ thing, use (change thing) = .ok (used thing))
    (some : ∀ thing, change thing ≠ .absent) (thing : Option α) :
    (Tree.ofOption (thing.map change)).optional use = .ok (thing.map used) := by
  cases thing with
  | none => rfl
  | some thing =>
    have present : (change thing).optional use = Option.some <$> use (change thing) := by
      cases same : change thing <;> first | rfl | exact absurd same (some thing)
    change (change thing).optional use = _
    rw [present, each]
    rfl

/-- What may be missing has the data of what is there. -/
theorem optionalData_ofOption {use : Tree → Except Misfit Data} {change : α → Tree} {used : α → Data}
    (each : ∀ thing, use (change thing) = .ok (used thing))
    (some : ∀ thing, change thing ≠ .absent) (thing : Option α) :
    (Tree.ofOption (thing.map change)).optionalData use = .ok (.ofOption (thing.map used)) := by
  rw [Tree.optionalData, optional_ofOption each some]
  rfl

/-- The items of an attribute have their data. -/
theorem eachData_list {use : Tree → Except Misfit Data} {change : α → Tree} {used : α → Data}
    {things : List α} (found : tree.valueOf name = .ok (.list (things.map change)))
    (each : ∀ thing, use (change thing) = .ok (used thing)) :
    tree.eachData name use = .ok (.list (things.map used)) := by
  rw [Tree.eachData, found]
  change (do return Data.list (← (things.map change).mapM use)) = _
  rw [mapM_map_eq_ok each]
  rfl

/-- A record has the data of its entries, which are made one after the other. -/
theorem recordData_eq {entries : List (String × (Tree → Except Misfit Data))} {data : List Data}
    (each : List.Forall₂ (fun entry found => entry.2 tree = .ok found) entries data) :
    tree.recordData entries = .ok (.record ((entries.map (·.1)).zip data)) := by
  have made : (entries.mapM fun entry => do return (entry.1, ← entry.2 tree)) =
      (.ok ((entries.map (·.1)).zip data) : Except Misfit _) := by
    induction each with
    | nil => rfl
    | cons first _ ih =>
      rw [List.mapM_cons, ih]
      simp only [first]
      rfl
  exact congrArg (· >>= fun found => pure (Data.record found)) made

end Attributes

section Members

/-- No type is shown as nothing. -/
theorem FieldType.tree_ne_absent (type : FieldType) : type.tree ≠ .absent := by
  cases type <;> simp [tree, plain]

/-- No constant is shown as nothing. -/
theorem ConstValue.tree_ne_absent (value : ConstValue) : value.tree ≠ .absent := by
  cases value <;> simp [tree, plain]

/-- What may be missing has the data of what is there. -/
theorem data_ofOption {α : Type} (change : α → Tree) (thing : Option α) :
    (Tree.ofOption (thing.map change)).data = .ofOption (thing.map fun thing => (change thing).data) := by
  cases thing <;> rfl

/-- The tree of a field has the data of the field. -/
theorem Field.fieldData_tree (field : Field Position) : field.tree.fieldData = .ok field.data := by
  have id : field.tree.plainData "id" = .ok (.ofOption (field.id.map .int)) :=
    Tree.plainData_node rfl (data_ofOption .int field.id)
  have name : field.tree.plainData "name" = .ok (.text field.name) :=
    Tree.plainData_node rfl (by rfl)
  have type : field.tree.valueOf "type" = .ok field.type.tree := Tree.valueOf_node rfl
  have word : field.tree.valueOf "required" = .ok field.requiredness.tree := Tree.valueOf_node rfl
  have value : field.tree.valueOf "default" =
      .ok (.ofOption (field.defaultValue.map ConstValue.tree)) := Tree.valueOf_node rfl
  have wordData : field.requiredness.tree.requirednessData = .ok field.requiredness.data := by
    cases field.requiredness <;> rfl
  have valueData := optional_ofOption ConstValue.constantData_tree ConstValue.tree_ne_absent
    field.defaultValue
  simp only [fieldData, id, name, type, word, value, bind, Except.bind, field.type.typeData_tree,
    wordData, valueData, data]
  cases field.defaultValue <;> rfl

/-- The trees of fields have their data. -/
theorem fieldsData_trees (fields : List (Field Position)) :
    (Tree.list (fields.map Field.tree)).fieldsData = .ok (.list (fields.map Field.data)) := by
  change (do return Data.list (← (fields.map Field.tree).mapM fieldData)) = _
  rw [mapM_map_eq_ok Field.fieldData_tree]
  rfl

/-- The tree of a function has the data of the function. -/
theorem FunctionDecl.functionData_tree (function : FunctionDecl Position) :
    function.tree.functionData = .ok function.data := by
  have returns : (do (← function.tree.valueOf "returns").optionalData typeData) =
      .ok (.ofOption (function.returns.map FieldType.data)) := by
    have found : function.tree.valueOf "returns" =
        .ok (.ofOption (function.returns.map FieldType.tree)) := Tree.valueOf_node rfl
    rw [found]
    exact optionalData_ofOption FieldType.typeData_tree FieldType.tree_ne_absent _
  have parameters : (do (← function.tree.valueOf "parameters").fieldsData) =
      .ok (.list (function.parameters.map Field.data)) := by
    have found : function.tree.valueOf "parameters" =
        .ok (.list (function.parameters.map Field.tree)) := Tree.valueOf_node rfl
    rw [found]
    exact fieldsData_trees _
  have exceptions : (do (← function.tree.valueOf "exceptions").optionalData fieldsData) =
      .ok (.ofOption (function.exceptions.map fun fields => .list (fields.map Field.data))) := by
    have found : function.tree.valueOf "exceptions" =
        .ok (.ofOption (function.exceptions.map fun fields => .list (fields.map Field.tree))) :=
      Tree.valueOf_node rfl
    rw [found]
    exact optionalData_ofOption fieldsData_trees (by simp) _
  exact recordData_eq (.cons (Tree.plainData_node rfl (by rfl)) <|
    .cons (Tree.plainData_node rfl (by rfl)) <| .cons returns <| .cons parameters <|
      .cons exceptions .nil)

end Members

section Definitions

/-- The tree of a namespace has the data of the namespace. -/
theorem Namespace.attributesData_tree (decl : Namespace) :
    decl.tree.attributesData ["scope", "name"] = .ok decl.data :=
  recordData_eq (.cons (Tree.plainData_node rfl (by rfl)) <|
    .cons (Tree.plainData_node rfl (by rfl)) .nil)

/-- The tree of a second name for a type has the data of the declaration. -/
theorem Typedef.typedefData_tree (decl : Typedef Position) : decl.tree.typedefData = .ok decl.data := by
  have old : (do (← decl.tree.valueOf "old").typeData) = .ok decl.old.data := by
    have found : decl.tree.valueOf "old" = .ok decl.old.tree := Tree.valueOf_node rfl
    rw [found]
    exact decl.old.typeData_tree
  exact recordData_eq (.cons (Tree.plainData_node rfl (by rfl)) (.cons old .nil))

/-- The tree of a constant declaration has the data of the declaration. -/
theorem ConstDecl.constDeclData_tree (decl : ConstDecl Position) :
    decl.tree.constDeclData = .ok decl.data := by
  have type : (do (← decl.tree.valueOf "type").typeData) = .ok decl.type.data := by
    have found : decl.tree.valueOf "type" = .ok decl.type.tree := Tree.valueOf_node rfl
    rw [found]
    exact decl.type.typeData_tree
  have value : (do (← decl.tree.valueOf "value").constantData) = .ok decl.value.data := by
    have found : decl.tree.valueOf "value" = .ok decl.value.tree := Tree.valueOf_node rfl
    rw [found]
    exact decl.value.constantData_tree
  exact recordData_eq (.cons (Tree.plainData_node rfl (by rfl)) (.cons type (.cons value .nil)))

/-- The tree of a value of an enumeration has the data of the value. -/
theorem EnumValue.attributesData_tree (value : EnumValue Position) :
    value.tree.attributesData ["name", "value"] = .ok value.data := by
  have number : value.tree.plainData "value" = .ok (.ofOption (value.value.map .int)) :=
    Tree.plainData_node rfl (data_ofOption .int value.value)
  exact recordData_eq (.cons (Tree.plainData_node rfl (by rfl)) (.cons number .nil))

/-- The tree of an enumeration has the data of the enumeration. -/
theorem EnumDecl.enumData_tree (decl : EnumDecl Position) : decl.tree.enumData = .ok decl.data :=
  recordData_eq (.cons (Tree.plainData_node rfl (by rfl)) <|
    .cons (eachData_list (Tree.valueOf_node rfl) EnumValue.attributesData_tree) .nil)

/-- The tree of a record has the data of the record. -/
theorem Record.recordDeclData_tree (kind : RecordKind) (decl : Record Position) :
    (decl.tree kind).recordDeclData = .ok decl.data := by
  cases kind <;> exact recordData_eq (.cons (Tree.plainData_node rfl (by rfl)) <|
    .cons (eachData_list (Tree.valueOf_node rfl) Field.fieldData_tree) .nil)

/-- The tree of a service has the data of the service. -/
theorem Service.serviceData_tree (decl : Service Position) : decl.tree.serviceData = .ok decl.data := by
  have base : decl.tree.plainData "extends" = .ok (.ofOption (decl.base.map .text)) :=
    Tree.plainData_node rfl (data_ofOption .text decl.base)
  exact recordData_eq (.cons (Tree.plainData_node rfl (by rfl)) <| .cons base <|
    .cons (eachData_list (Tree.valueOf_node rfl) FunctionDecl.functionData_tree) .nil)

/-- The tree of a document has the data of the document. -/
theorem Document.documentData_tree (document : Document Position) :
    document.tree.documentData = .ok document.data :=
  recordData_eq <|
    .cons (eachData_list (Tree.valueOf_node rfl) fun _ => Tree.plainData_node rfl (by rfl)) <|
    .cons (eachData_list (Tree.valueOf_node rfl) fun _ => Tree.plainData_node rfl (by rfl)) <|
    .cons (eachData_list (Tree.valueOf_node rfl) Namespace.attributesData_tree) <|
    .cons (eachData_list (Tree.valueOf_node rfl) Typedef.typedefData_tree) <|
    .cons (eachData_list (Tree.valueOf_node rfl) ConstDecl.constDeclData_tree) <|
    .cons (eachData_list (Tree.valueOf_node rfl) EnumDecl.enumData_tree) <|
    .cons (eachData_list (Tree.valueOf_node rfl) (Record.recordDeclData_tree .struct)) <|
    .cons (eachData_list (Tree.valueOf_node rfl) (Record.recordDeclData_tree .union)) <|
    .cons (eachData_list (Tree.valueOf_node rfl) (Record.recordDeclData_tree .exception)) <|
    .cons (eachData_list (Tree.valueOf_node rfl) Service.serviceData_tree) .nil

end Definitions

end ThriftIdl
