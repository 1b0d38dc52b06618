import ThriftIdl.Vocabulary

/-!
# Field types

A type is a base type, a container of types, or the name of a type declared elsewhere. The depth
of a type is the number of containers around its innermost type.
-/
namespace ThriftIdl

/-- The type of a field, a constant, a result or an alias. -/
inductive FieldType where
  /-- A base type. -/
  | base (type : BaseType)
  /-- A map from keys to values. -/
  | map (key value : FieldType)
  /-- A set of elements. -/
  | set (element : FieldType)
  /-- A list of elements. -/
  | list (element : FieldType)
  /-- A type known by its name. -/
  | named (name : String)
deriving DecidableEq, Repr

/-- The number of containers around the innermost type. -/
def FieldType.depth : FieldType → Nat
  | .base _ => 0
  | .map key value => max key.depth value.depth + 1
  | .set element => element.depth + 1
  | .list element => element.depth + 1
  | .named _ => 0

end ThriftIdl
