import ThriftIdl.Double.Decimal

/-!
# Constant values

A constant is a reference to a name, a literal, a number, or a list or map of constants. Integers
are unbounded here; the readers admit those of 64 bits. The depth of a constant is the number of
lists and maps around its innermost value.
-/
namespace ThriftIdl

/-- The value of a constant or the default value of a field. -/
inductive ConstValue where
  /-- A reference to a name. -/
  | name (name : String)
  /-- The text of a literal, without its quotes. -/
  | literal (text : String)
  /-- An integer. -/
  | int (value : Int)
  /-- A double precision number. -/
  | double (value : Double)
  /-- A list of constants. -/
  | list (values : List ConstValue)
  /-- The entries of a map, keys with values, in order. -/
  | map (entries : List (ConstValue × ConstValue))

mutual
/-- The number of lists and maps around the innermost value. -/
def ConstValue.depth : ConstValue → Nat
  | .list values => depthOfValues values + 1
  | .map entries => depthOfEntries entries + 1
  | .name _ | .literal _ | .int _ | .double _ => 0

/-- The greatest depth of the values of a list. -/
def depthOfValues : List ConstValue → Nat
  | [] => 0
  | value :: values => max value.depth (depthOfValues values)

/-- The greatest depth of the keys and values of a map. -/
def depthOfEntries : List (ConstValue × ConstValue) → Nat
  | [] => 0
  | (key, value) :: entries => max (max key.depth value.depth) (depthOfEntries entries)
end

end ThriftIdl
