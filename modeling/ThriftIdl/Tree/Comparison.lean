import ThriftIdl.Tree.Access

/-!
# Comparing trees

Doubles are compared approximately, which needs two numbers. A tree may hold anything where a
double belongs, and comparing it then stops (`compared`), unless both trees hold the same there
or a difference was found before. Main statement: `compared_node_ne`, nodes with different labels
can be compared, whatever they hold.
-/
namespace ThriftIdl.Tree

/-- A tree itself, if it is no number. -/
def noNumber? : Tree → Option Tree
  | .int _ | .double _ | .flag _ => none
  | tree => some tree

mutual
/-- What stops the comparison of two trees, part by part up to the first difference. -/
def clash? : Tree → Tree → Option Tree
  | .node .doubleConstant [value] _, .node .doubleConstant [value'] _ =>
    if value.same value' then none else value.noNumber?.or value'.noNumber?
  | .node label values _, .node label' values' _ =>
    if label = label' then clashAmong? values values' else none
  | .list items, .list items' =>
    if items.length = items'.length then clashAmong? items items' else none
  | .pair first second, .pair first' second' =>
    (first.clash? first').or (if first.same first' then second.clash? second' else none)
  | _, _ => none

/-- The same for two lists of trees. -/
def clashAmong? : List Tree → List Tree → Option Tree
  | item :: items, item' :: items' =>
    (item.clash? item').or (if item.same item' then clashAmong? items items' else none)
  | _, _ => none
end

/-- Whether two trees are equal but for positions, doubles approximately. -/
def compared (first second : Tree) : Except Misfit Bool :=
  match first.clash? second with
  | some tree => .error (.notNumber tree)
  | none => .ok (first.same second)

/-- Nodes with different labels can be compared, and differ. -/
theorem compared_node_ne {label label' : Label} (values values' : List Tree)
    (position position' : Position) (different : label ≠ label') :
    compared (.node label values position) (.node label' values' position') = .ok false := by
  have free : clash? (.node label values position) (.node label' values' position') = none := by
    rw [clash?]
    · simp [different]
    · intro _ _ isDouble _ isDouble' _
      exact different (isDouble.trans isDouble'.symm)
  simp [compared, free, same, different]

end ThriftIdl.Tree
