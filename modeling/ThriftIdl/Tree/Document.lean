import ThriftIdl.Tree.Access

/-!
# Trees sorted into documents

Definitions of any order are sorted into the lists of a document by their labels.
-/
namespace ThriftIdl.Tree

/-- The labels of definitions in the order of the lists of a document. -/
def definitionLabels : List Label := [
  .inclusion, .cppInclusion, .space, .typedefDecl, .constDecl, .enumDecl, .structDecl, .unionDecl,
  .exceptionDecl, .serviceDecl]

/-- Whether a tree is a node with a label. -/
def hasLabel (label : Label) : Tree → Bool
  | .node found _ _ => found = label
  | _ => false

/-- Trees sorted into a document by their labels. -/
def documentOf (trees : List Tree) : Except Misfit Tree :=
  match trees.find? fun tree => !definitionLabels.any tree.hasLabel with
  | some tree => .error (.noCategory tree)
  | none =>
    .ok (.plain .document (definitionLabels.map fun label => .list (trees.filter (hasLabel label))))

end ThriftIdl.Tree
