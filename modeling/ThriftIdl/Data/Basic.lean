import ThriftIdl.Document
import ThriftIdl.Failure

/-!
# Plain data

A document can be given as plain data: numbers, texts, lists and records with named entries. A
reference to a name is a record, so that it stays distinct from a literal, and a map constant is
a list of pairs, since its keys may be lists and maps.
-/
namespace ThriftIdl

/-- Plain data. -/
inductive Data where
  /-- Nothing. -/
  | null
  /-- Yes or no. -/
  | flag (value : Bool)
  /-- An integer. -/
  | int (value : Int)
  /-- A double. -/
  | double (value : Double)
  /-- A text. -/
  | text (text : String)
  /-- A list. -/
  | list (items : List Data)
  /-- Named entries, in order. -/
  | record (entries : List (String × Data))

/-- What may be missing. -/
def Data.ofOption : Option Data → Data := fun data => data.getD .null

mutual
/-- A constant as data. -/
def ConstValue.data : ConstValue → Data
  | .name name => .record [("ref", .text name)]
  | .literal text => .text text
  | .int value => .int value
  | .double value => .double value
  | .list values => .list (dataOfValues values)
  | .map entries => .list (dataOfEntries entries)

/-- Constants as data. -/
def dataOfValues : List ConstValue → List Data
  | [] => []
  | value :: values => value.data :: dataOfValues values

/-- The entries of a map as pairs of data. -/
def dataOfEntries : List (ConstValue × ConstValue) → List Data
  | [] => []
  | (key, value) :: entries => .list [key.data, value.data] :: dataOfEntries entries
end

end ThriftIdl
