import ThriftIdl.Token.Grammar
import ThriftIdl.Reader.Source

/-!
# Reading a whole text over tokens

All tokens of a text are read before anything is said about its meaning. Then the nesting of
containers is looked at, the last definition first and each container before what it holds, the
last part first; after that the first other thing that is wrong with the meaning counts. Main
statement: `FieldType.tooDeep?_eq_none_iff`, nothing is nested too deeply in a type exactly if its
depth is within the limit.
-/
namespace ThriftIdl

/-- The production of the first container of a type that is nested too deeply: the outer one
before the inner ones, the last part first. -/
def FieldType.tooDeep? : Nat → FieldType → Option String
  | _, .base _ => none
  | _, .named _ => none
  | 0, .map _ _ => some "map_type"
  | 0, .set _ => some "set_type"
  | 0, .list _ => some "list_type"
  | limit + 1, .map key value => (value.tooDeep? limit).or (key.tooDeep? limit)
  | limit + 1, .set element => element.tooDeep? limit
  | limit + 1, .list element => element.tooDeep? limit

/-- No container of a type is nested too deeply exactly if the depth is within the limit. -/
theorem FieldType.tooDeep?_eq_none_iff {limit : Nat} {type : FieldType} :
    type.tooDeep? limit = none ↔ type.depth ≤ limit := by
  induction type generalizing limit with
  | base | named => simp [tooDeep?, depth]
  | map key value key_ih value_ih =>
    cases limit with
    | zero => simp [tooDeep?, depth]
    | succ limit =>
      simp only [tooDeep?, depth, Option.or_eq_none_iff, key_ih, value_ih]
      omega
  | set element ih | list element ih =>
    cases limit with
    | zero => simp [tooDeep?, depth]
    | succ limit => simp [tooDeep?, depth, ih]

mutual
/-- The production of the first container of a constant that is nested too deeply: the outer one
before the inner ones, the last part first. -/
def ConstValue.tooDeep? (limit : Nat) : ConstValue → Option String
  | .list values => if limit = 0 then some "const_list" else tooDeepValues? (limit - 1) values
  | .map entries => if limit = 0 then some "const_map" else tooDeepEntries? (limit - 1) entries
  | .name _ | .literal _ | .int _ | .double _ => none

/-- The same for the values of a list. -/
def tooDeepValues? (limit : Nat) : List ConstValue → Option String
  | [] => none
  | value :: values => (tooDeepValues? limit values).or (value.tooDeep? limit)

/-- The same for the entries of a map. -/
def tooDeepEntries? (limit : Nat) : List (ConstValue × ConstValue) → Option String
  | [] => none
  | (key, value) :: entries =>
    (tooDeepEntries? limit entries).or ((value.tooDeep? limit).or (key.tooDeep? limit))
end

/-- The last answer of a list of things. -/
def lastOf {α β : Type} (ask : α → Option β) (things : List α) : Option β :=
  things.reverse.findSome? ask

/-- The same for a field: the default value before the type. -/
def Field.tooDeep? {π : Type} (limit : Nat) (field : Field π) : Option String :=
  (field.defaultValue.bind (·.tooDeep? limit)).or (field.type.tooDeep? limit)

/-- The same for a function: the exceptions, the parameters and the result. -/
def FunctionDecl.tooDeep? {π : Type} (limit : Nat) (function : FunctionDecl π) : Option String :=
  (lastOf (Field.tooDeep? limit) (function.exceptions.getD [])).or <|
    (lastOf (Field.tooDeep? limit) function.parameters).or
      (function.returns.bind (·.tooDeep? limit))

/-- The same for a definition. -/
def Definition.tooDeep? {π : Type} (limit : Nat) : Definition π → Option String
  | .inclusion _ | .cppInclusion _ | .space _ | .enum _ => none
  | .typedef decl => decl.old.tooDeep? limit
  | .const decl => (decl.value.tooDeep? limit).or (decl.type.tooDeep? limit)
  | .record _ decl => lastOf (Field.tooDeep? limit) decl.fields
  | .service decl => lastOf (FunctionDecl.tooDeep? limit) decl.functions

/-- Read all tokens of a text: its definitions, and the first thing that is wrong with their
meaning other than their nesting. -/
def readTokens (source : List Char) :
    Except Rejection (List (Definition Nat) × Option Invalid) := do
  let (token, rest) ← nextToken Follow.definition none source.length source
  let (definitions, ahead) ← TokenReader.definitions ⟨token, rest, none⟩
  return (definitions, ahead.invalid)

/-- Read a text over tokens, under a nesting limit. -/
def readByTokens (limit : Int) (source : List Char) : Except Rejection (Document Nat) := do
  let (definitions, invalid) ← readTokens source
  match (lastOf (Definition.tooDeep? limit.toNat) definitions).map Invalid.tooDeep, invalid with
  | some reason, _ | none, some reason => throw (.invalid reason)
  | none, none => return .ofDefinitions definitions

/-- Read a text over tokens, with positions. -/
def readGrammatically (limit : Int) (source : List Char) : Except Refusal (Document Position) :=
  match readByTokens limit source with
  | .ok document => .ok (document.map (positionIn source 0))
  | .error rejection => .error (.ofRejection source limit rejection)

end ThriftIdl
