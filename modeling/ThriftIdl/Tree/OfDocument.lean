import ThriftIdl.Reader.Production
import ThriftIdl.Tree.Basic

/-!
# Trees of documents

Every kind of node is seen as a labelled tree with the same attributes.
-/
namespace ThriftIdl

/-- What may be missing. -/
def Tree.ofOption : Option Tree → Tree := fun tree => tree.getD .absent

/-- A type as a tree. -/
def FieldType.tree : FieldType → Tree
  | .base type => .base type
  | .map key value => .plain .mapType [key.tree, value.tree]
  | .set element => .plain .setType [element.tree]
  | .list element => .plain .listType [element.tree]
  | .named name => .plain .identifier [.text name]

mutual
/-- A constant as a tree. -/
def ConstValue.tree : ConstValue → Tree
  | .name name => .plain .identifier [.text name]
  | .literal text => .plain .literal [.text text]
  | .int value => .plain .intConstant [.int value]
  | .double value => .plain .doubleConstant [.double value]
  | .list values => .plain .constList [.list (treesOfValues values)]
  | .map entries => .plain .constMap [.list (treesOfEntries entries)]

/-- Constants as trees. -/
def treesOfValues : List ConstValue → List Tree
  | [] => []
  | value :: values => value.tree :: treesOfValues values

/-- The entries of a map as pairs of trees. -/
def treesOfEntries : List (ConstValue × ConstValue) → List Tree
  | [] => []
  | (key, value) :: entries => .pair key.tree value.tree :: treesOfEntries entries
end

/-- Yes, no, or nothing. -/
def Requiredness.tree : Requiredness → Tree
  | .required => .flag true
  | .optional => .flag false
  | .unstated => .absent

/-- A field as a tree. -/
def Field.tree (field : Field Position) : Tree :=
  .node .field [field.type.tree, .text field.name, .ofOption (field.id.map .int),
    field.requiredness.tree, .ofOption (field.defaultValue.map ConstValue.tree)] field.place

/-- A function as a tree. -/
def FunctionDecl.tree (function : FunctionDecl Position) : Tree :=
  .node .functionDecl [.text function.name, .ofOption (function.returns.map FieldType.tree),
    .flag function.oneway, .list (function.parameters.map Field.tree),
    .ofOption (function.exceptions.map fun fields => .list (fields.map Field.tree))]
    function.place

/-- A namespace as a tree. -/
def Namespace.tree (decl : Namespace) : Tree := .plain .space [.text decl.scope, .text decl.name]

/-- A second name for a type as a tree. -/
def Typedef.tree (decl : Typedef Position) : Tree :=
  .node .typedefDecl [decl.old.tree, .text decl.name] decl.place

/-- A constant declaration as a tree. -/
def ConstDecl.tree (decl : ConstDecl Position) : Tree :=
  .node .constDecl [.text decl.name, decl.type.tree, decl.value.tree] decl.place

/-- A value of an enumeration as a tree. -/
def EnumValue.tree (value : EnumValue Position) : Tree :=
  .node .enumValue [.text value.name, .ofOption (value.value.map .int)] value.place

/-- An enumeration as a tree. -/
def EnumDecl.tree (decl : EnumDecl Position) : Tree :=
  .node .enumDecl [.text decl.name, .list (decl.values.map EnumValue.tree)] decl.place

/-- The label of records of a kind. -/
def RecordKind.label : RecordKind → Label
  | .struct => .structDecl
  | .union => .unionDecl
  | .exception => .exceptionDecl

/-- A record as a tree. -/
def Record.tree (kind : RecordKind) (decl : Record Position) : Tree :=
  .node kind.label [.text decl.name, .list (decl.fields.map Field.tree)] decl.place

/-- A service as a tree. -/
def Service.tree (decl : Service Position) : Tree :=
  .node .serviceDecl [.text decl.name, .ofOption (decl.base.map .text),
    .list (decl.functions.map FunctionDecl.tree)] decl.place

/-- A definition as a tree. -/
def Definition.tree : Definition Position → Tree
  | .inclusion path => .plain .inclusion [.text path]
  | .cppInclusion path => .plain .cppInclusion [.text path]
  | .space decl => decl.tree
  | .typedef decl => decl.tree
  | .const decl => decl.tree
  | .enum decl => decl.tree
  | .record kind decl => decl.tree kind
  | .service decl => decl.tree

/-- A document as a tree. -/
def Document.tree (document : Document Position) : Tree :=
  .plain .document [
    .list (document.includes.map fun path => .plain .inclusion [.text path]),
    .list (document.cppIncludes.map fun path => .plain .cppInclusion [.text path]),
    .list (document.namespaces.map Namespace.tree),
    .list (document.typedefs.map Typedef.tree),
    .list (document.consts.map ConstDecl.tree),
    .list (document.enums.map EnumDecl.tree),
    .list (document.structs.map (Record.tree .struct)),
    .list (document.unions.map (Record.tree .union)),
    .list (document.exceptions.map (Record.tree .exception)),
    .list (document.services.map Service.tree)]

/-- Whether two documents are equal but for positions, doubles approximately. -/
def Document.same (first second : Document Position) : Bool := first.tree.same second.tree

/-- What a production gives as a tree. -/
def Reading.tree : Reading Position → Tree
  | .literal text => .plain .literal [.text text]
  | .name word => .plain .identifier [.text word]
  | .separator char => .text (String.singleton char)
  | .comment text => .plain .comment [.text text]
  | .nothing => .absent
  | .constant value => value.tree
  | .type found => found.tree
  | .cppType text => .plain .cppType [.plain .literal [.text text]]
  | .field found => found.tree
  | .function found => found.tree
  | .enumValue value => value.tree
  | .definition found => found.tree
  | .document found => found.tree

end ThriftIdl
