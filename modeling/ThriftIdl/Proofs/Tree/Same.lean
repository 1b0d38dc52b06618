import Mathlib.Data.List.Forall2
import Mathlib.Tactic.Common
import ThriftIdl.Proofs.Grammar.WellFormed
import ThriftIdl.Tree.OfDocument

/-!
# Comparison of a tree with itself

Doubles are compared approximately, and one that is no number is not even equal to itself. A tree is
equal to itself exactly if it holds none of these (`Tree.same_self_iff`). The doubles of the tree of
a document are those of the document, so that the same holds of documents (`Document.same_self_iff`).
Documents that differ in their places only are compared like one of them with itself
(`Document.same_of_content`).
-/
namespace ThriftIdl

/-- A double is approximately equal to itself exactly if it is a number. -/
theorem Double.close_self_iff (value : Double) : value.close value ↔ value ≠ .nan := by
  cases value with
  | nan => simp [close]
  | number negative magnitude => simp [close, same]

mutual
/-- The doubles of a tree. -/
def Tree.doubles : Tree → List Double
  | .double value => [value]
  | .list items => doublesOfTrees items
  | .pair first second => first.doubles ++ second.doubles
  | .node _ values _ => doublesOfTrees values
  | .absent | .text _ | .flag _ | .int _ | .base _ => []

/-- The doubles of trees. -/
def doublesOfTrees : List Tree → List Double
  | [] => []
  | tree :: trees => tree.doubles ++ doublesOfTrees trees
end

mutual
/-- A tree is equal to itself exactly if its doubles are numbers. -/
theorem Tree.same_self_iff : ∀ tree : Tree,
    tree.same tree ↔ ∀ double ∈ tree.doubles, double ≠ .nan
  | .absent | .text _ | .flag _ | .int _ | .base _ => by simp [Tree.same, Tree.doubles]
  | .double value => by
    rw [Tree.same, Tree.doubles, List.forall_mem_singleton]
    exact value.close_self_iff
  | .list items => by
    rw [Tree.same, Tree.doubles]
    exact sameAll_self_iff items
  | .pair first second => by
    rw [Tree.same, Tree.doubles, Bool.and_eq_true, first.same_self_iff, second.same_self_iff,
      List.forall_mem_append]
  | .node label values _ => by
    rw [Tree.same, Tree.doubles, decide_eq_true rfl, Bool.true_and]
    exact sameAll_self_iff values

/-- Trees are equal to themselves exactly if their doubles are numbers. -/
theorem sameAll_self_iff : ∀ trees : List Tree,
    Tree.sameAll trees trees ↔ ∀ double ∈ doublesOfTrees trees, double ≠ .nan
  | [] => by simp [Tree.sameAll, doublesOfTrees]
  | tree :: trees => by
    rw [Tree.sameAll, doublesOfTrees, Bool.and_eq_true, tree.same_self_iff,
      sameAll_self_iff trees, List.forall_mem_append]
end

/-- Trees of things hold the doubles of the things. -/
theorem doublesOfTrees_map {α : Type} {tree : α → Tree} {doubles : α → List Double}
    (each : ∀ thing, (tree thing).doubles = doubles thing) (things : List α) :
    doublesOfTrees (things.map tree) = things.flatMap doubles := by
  induction things with
  | nil => rfl
  | cons thing things ih => rw [List.map_cons, doublesOfTrees, each, ih, List.flatMap_cons]

/-- The tree of what may be missing holds the doubles of what is there. -/
theorem doubles_ofOption {α : Type} {tree : α → Tree} {doubles : α → List Double}
    (each : ∀ thing, (tree thing).doubles = doubles thing) (thing : Option α) :
    (Tree.ofOption (thing.map tree)).doubles = thing.toList.flatMap doubles := by
  cases thing with
  | none => rfl
  | some thing => simp [Tree.ofOption, each]

/-- The tree of what holds no doubles, and may be missing, holds none. -/
theorem doubles_ofOption_eq_nil {α : Type} {tree : α → Tree}
    (each : ∀ thing, (tree thing).doubles = []) (thing : Option α) :
    (Tree.ofOption (thing.map tree)).doubles = [] := by
  cases thing with
  | none => rfl
  | some thing => exact each thing

/-- The tree of a type holds no doubles. -/
theorem FieldType.doubles_tree (type : FieldType) : type.tree.doubles = [] := by
  induction type with
  | base | named => rfl
  | map key value key_ih value_ih =>
    simp [tree, Tree.plain, Tree.doubles, doublesOfTrees, key_ih, value_ih]
  | set element ih | list element ih => simp [tree, Tree.plain, Tree.doubles, doublesOfTrees, ih]

mutual
/-- The tree of a constant holds the doubles of the constant. -/
theorem ConstValue.doubles_tree : ∀ value : ConstValue, value.tree.doubles = value.doubles
  | .name _ | .literal _ | .int _ | .double _ => rfl
  | .list values => by
    rw [ConstValue.tree, Tree.plain, Tree.doubles, doublesOfTrees, Tree.doubles,
      doubles_treesOfValues values]
    exact List.append_nil _
  | .map entries => by
    rw [ConstValue.tree, Tree.plain, Tree.doubles, doublesOfTrees, Tree.doubles,
      doubles_treesOfEntries entries]
    exact List.append_nil _

/-- The trees of constants hold their doubles. -/
theorem doubles_treesOfValues : ∀ values : List ConstValue,
    doublesOfTrees (treesOfValues values) = doublesOfValues values
  | [] => rfl
  | value :: values => by
    rw [treesOfValues, doublesOfTrees, value.doubles_tree, doubles_treesOfValues values,
      doublesOfValues]

/-- The pairs of the entries of a map hold their doubles. -/
theorem doubles_treesOfEntries : ∀ entries : List (ConstValue × ConstValue),
    doublesOfTrees (treesOfEntries entries) = doublesOfEntries entries
  | [] => rfl
  | (key, value) :: entries => by
    rw [treesOfEntries, doublesOfTrees, Tree.doubles, key.doubles_tree, value.doubles_tree,
      doubles_treesOfEntries entries, doublesOfEntries]
end

/-- The tree of a field holds the doubles of its default value. -/
theorem Field.doubles_tree (field : Field Position) : field.tree.doubles = field.doubles := by
  have id := doubles_ofOption_eq_nil (fun n => (rfl : (Tree.int n).doubles = [])) field.id
  have requiredness : field.requiredness.tree.doubles = [] := by cases field.requiredness <;> rfl
  have value := doubles_ofOption ConstValue.doubles_tree field.defaultValue
  simp only [tree, Tree.doubles, doublesOfTrees, id, requiredness, value, field.type.doubles_tree,
    List.nil_append, List.append_nil, doubles]

/-- The tree of a function holds the doubles of its parameters and its exceptions. -/
theorem FunctionDecl.doubles_tree (function : FunctionDecl Position) :
    function.tree.doubles = function.doubles := by
  have result := doubles_ofOption_eq_nil FieldType.doubles_tree function.returns
  have fields : ∀ fields : List (Field Position),
      (Tree.list (fields.map Field.tree)).doubles = fields.flatMap Field.doubles :=
    doublesOfTrees_map Field.doubles_tree
  have thrown := doubles_ofOption fields function.exceptions
  have same : function.exceptions.toList.flatMap (List.flatMap Field.doubles) =
      (function.exceptions.getD []).flatMap Field.doubles := by
    cases function.exceptions with
    | none => rfl
    | some thrown => exact List.append_nil _
  calc function.tree.doubles
    _ = [] ++ ((Tree.ofOption (function.returns.map FieldType.tree)).doubles ++ ([] ++
        ((Tree.list (function.parameters.map Field.tree)).doubles ++
          ((Tree.ofOption (function.exceptions.map fun fields =>
            .list (fields.map Field.tree))).doubles ++ [])))) := rfl
    _ = function.parameters.flatMap Field.doubles ++
        (function.exceptions.getD []).flatMap Field.doubles := by
      rw [result, fields, thrown, same, List.append_nil]
      rfl
    _ = function.doubles := List.flatMap_append.symm

/-- The tree of a definition holds the doubles of the definition. -/
theorem Definition.doubles_tree (definition : Definition Position) :
    definition.tree.doubles = definition.doubles := by
  cases definition with
  | inclusion | cppInclusion | space => rfl
  | typedef decl =>
    simp only [tree, Typedef.tree, Tree.doubles, doublesOfTrees, decl.old.doubles_tree,
      List.nil_append, doubles]
  | const decl =>
    simp only [tree, ConstDecl.tree, Tree.doubles, doublesOfTrees, decl.type.doubles_tree,
      decl.value.doubles_tree, List.nil_append, List.append_nil, doubles]
  | enum decl =>
    have value : ∀ value : EnumValue Position, value.tree.doubles = [] := by
      intro value
      have number := doubles_ofOption_eq_nil (fun n => (rfl : (Tree.int n).doubles = [])) value.value
      simp only [EnumValue.tree, Tree.doubles, doublesOfTrees, number, List.nil_append]
    simp only [tree, EnumDecl.tree, Tree.doubles, doublesOfTrees, doublesOfTrees_map value,
      List.nil_append, List.append_nil, doubles]
    exact List.flatMap_eq_nil_iff.2 fun _ _ => rfl
  | record kind decl =>
    simp only [tree, Record.tree, Tree.doubles, doublesOfTrees,
      doublesOfTrees_map Field.doubles_tree, List.nil_append, List.append_nil, doubles]
  | service decl =>
    have base := doubles_ofOption_eq_nil (fun name => (rfl : (Tree.text name).doubles = [])) decl.base
    simp only [tree, Service.tree, Tree.doubles, doublesOfTrees, base,
      doublesOfTrees_map FunctionDecl.doubles_tree, List.nil_append, List.append_nil, doubles]

/-- The tree of a document holds the doubles of the document. -/
theorem Document.doubles_tree (document : Document Position) :
    document.tree.doubles = document.doubles := by
  have each : ∀ {α : Type} (define : α → Definition Position) (things : List α),
      doublesOfTrees (things.map fun thing => (define thing).tree) =
        (things.map define).flatMap Definition.doubles := by
    intro α define things
    rw [doublesOfTrees_map fun thing => (define thing).doubles_tree, List.flatMap_map]
  simp only [doubles, definitions, List.flatMap_append, ← each, List.append_assoc]
  exact congrArg _ (congrArg _ (congrArg _ (congrArg _ (congrArg _ (congrArg _ (congrArg _
    (congrArg _ (congrArg _ (List.append_nil _)))))))))

/-- A document is equal to itself exactly if its doubles are numbers. -/
theorem Document.same_self_iff (document : Document Position) :
    document.same document ↔ ∀ double ∈ document.doubles, double ≠ .nan := by
  rw [same, Tree.same_self_iff, document.doubles_tree]

section Places

variable {α : Type} {tree : α → Tree} {change : α → α} {values values' : List Tree}
  (move : Position → Position)

/-- Two trees that are compared alike with all trees. -/
def Tree.Twins (first second : Tree) : Prop := ∀ tree, first.same tree = second.same tree

/-- A tree is its own twin. -/
theorem Tree.Twins.refl (tree : Tree) : Tree.Twins tree tree := fun _ => rfl

/-- Lists of twins are compared alike. -/
theorem sameAll_of_twins (each : List.Forall₂ Tree.Twins values values') (trees : List Tree) :
    Tree.sameAll values trees = Tree.sameAll values' trees := by
  induction each generalizing trees with
  | nil => rfl
  | cons twins _ ih =>
    cases trees with
    | nil => rfl
    | cons tree trees => rw [Tree.sameAll, Tree.sameAll, twins tree, ih trees]

/-- Nodes of twins are twins, whatever their positions are. -/
theorem twins_node {label : Label} {position position' : Position}
    (each : List.Forall₂ Tree.Twins values values') :
    Tree.Twins (.node label values position) (.node label values' position') := by
  intro tree
  cases tree <;> simp only [Tree.same, sameAll_of_twins each]

/-- Nodes with the same values are twins, whatever their positions are. -/
theorem twins_node_of_values {label : Label} {position position' : Position} :
    Tree.Twins (.node label values position) (.node label values position') :=
  twins_node (List.forall₂_same.2 fun tree _ => .refl tree)

/-- Changes of the parts of a list that make no difference to their trees make none to that of the
list. -/
theorem twins_list (each : ∀ thing, Tree.Twins (tree thing) (tree (change thing))) (things : List α) :
    Tree.Twins (.list (things.map tree)) (.list ((things.map change).map tree)) := by
  have twins : List.Forall₂ Tree.Twins (things.map tree) ((things.map change).map tree) := by
    rw [List.map_map]
    exact List.forall₂_map_left_iff.2 (List.forall₂_map_right_iff.2
      (List.forall₂_same.2 fun thing _ => each thing))
  intro tree
  cases tree <;> simp only [Tree.same, sameAll_of_twins twins]

/-- A change of what may be missing that makes no difference to its tree makes none if it may. -/
theorem twins_ofOption (each : ∀ thing, Tree.Twins (tree thing) (tree (change thing)))
    (thing : Option α) :
    Tree.Twins (Tree.ofOption (thing.map tree)) (Tree.ofOption ((thing.map change).map tree)) := by
  cases thing with
  | none => exact .refl _
  | some thing => exact each thing

/-- The place of a field makes no difference to its tree. -/
theorem Field.twins_tree (field : Field Position) : Tree.Twins field.tree (field.map move).tree :=
  twins_node_of_values

/-- The places of fields make no difference to their trees. -/
theorem twins_fields (fields : List (Field Position)) :
    Tree.Twins (.list (fields.map Field.tree))
      (.list ((fields.map (Field.map move)).map Field.tree)) :=
  twins_list (Field.twins_tree move) fields

/-- The places in a function make no difference to its tree. -/
theorem FunctionDecl.twins_tree (function : FunctionDecl Position) :
    Tree.Twins function.tree (function.map move).tree :=
  twins_node (.cons (.refl _) (.cons (.refl _) (.cons (.refl _)
    (.cons (twins_fields move function.parameters)
      (.cons (twins_ofOption (twins_fields move) function.exceptions) .nil)))))

/-- The place of a second name for a type makes no difference to its tree. -/
theorem Typedef.twins_tree (decl : Typedef Position) : Tree.Twins decl.tree (decl.map move).tree :=
  twins_node_of_values

/-- The place of a constant declaration makes no difference to its tree. -/
theorem ConstDecl.twins_tree (decl : ConstDecl Position) :
    Tree.Twins decl.tree (decl.map move).tree :=
  twins_node_of_values

/-- The place of a value of an enumeration makes no difference to its tree. -/
theorem EnumValue.twins_tree (value : EnumValue Position) :
    Tree.Twins value.tree (value.map move).tree :=
  twins_node_of_values

/-- The places in an enumeration make no difference to its tree. -/
theorem EnumDecl.twins_tree (decl : EnumDecl Position) :
    Tree.Twins decl.tree (decl.map move).tree :=
  twins_node (.cons (.refl _) (.cons (twins_list (EnumValue.twins_tree move) decl.values) .nil))

/-- The places in a record make no difference to its tree. -/
theorem Record.twins_tree (kind : RecordKind) (decl : Record Position) :
    Tree.Twins (decl.tree kind) ((decl.map move).tree kind) :=
  twins_node (.cons (.refl _) (.cons (twins_fields move decl.fields) .nil))

/-- The places in a service make no difference to its tree. -/
theorem Service.twins_tree (decl : Service Position) :
    Tree.Twins decl.tree (decl.map move).tree :=
  twins_node (.cons (.refl _) (.cons (.refl _)
    (.cons (twins_list (FunctionDecl.twins_tree move) decl.functions) .nil)))

/-- The places in a document make no difference to its tree. -/
theorem Document.twins_tree (document : Document Position) :
    Tree.Twins document.tree (document.map move).tree := by
  have typedefs := twins_list (Typedef.twins_tree move) document.typedefs
  have consts := twins_list (ConstDecl.twins_tree move) document.consts
  have enums := twins_list (EnumDecl.twins_tree move) document.enums
  have structs := twins_list (Record.twins_tree move .struct) document.structs
  have unions := twins_list (Record.twins_tree move .union) document.unions
  have exceptions := twins_list (Record.twins_tree move .exception) document.exceptions
  have services := twins_list (Service.twins_tree move) document.services
  exact twins_node (.cons (.refl _) (.cons (.refl _) (.cons (.refl _) (.cons typedefs (.cons consts
    (.cons enums (.cons structs (.cons unions (.cons exceptions (.cons services .nil))))))))))

end Places

end ThriftIdl
