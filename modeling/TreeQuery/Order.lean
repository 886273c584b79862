import TreeQuery.Error
import TreeQuery.Value.Basic

/-!
Orders of rows: plain ones, and sort keys, whose columns also have a name and a type in cursors.
-/

namespace TreeQuery

inductive Direction where
  | ascending
  | descending
  deriving DecidableEq

namespace Direction

def flip : Direction → Direction
  | .ascending => .descending
  | .descending => .ascending

def sql : Direction → String
  | .ascending => "ASC"
  | .descending => "DESC"

@[simp] theorem flip_flip (d : Direction) : d.flip.flip = d := by cases d <;> rfl

end Direction

structure OrderColumn where
  column : String
  direction : Direction
  deriving DecidableEq

/-- Earlier columns take precedence. -/
abbrev OrderBy := List OrderColumn

inductive KeyType where
  | any
  | int
  | float
  | string
  | bool
  deriving DecidableEq

structure SortColumn where
  column : String
  /-- The name of the value in cursors. -/
  name : String
  direction : Direction
  type : KeyType
  deriving DecidableEq

/-- An order whose columns together tell rows apart. -/
abbrev SortKey := List SortColumn

def SortKey.names (key : SortKey) : List String := key.map SortColumn.name

namespace KeyType

def name : KeyType → String
  | .any => "Any"
  | .int => "Int"
  | .float => "Float"
  | .string => "String"
  | .bool => "Bool"

/-- The value under this type, null being of every type. -/
def convert? (t : KeyType) (v : Value) : Option Value :=
  let v := v.normalize
  match t, v with
  | .any, v => some v
  | _, .null => some .null
  | .int, v => v.int?.map .int
  | .float, .double x => some (.double x)
  | .float, .int i => some (.double (Double.ofInt64 i))
  | .float, .text s => (Double.read? s).map .double
  | .string, .text s => some (.text s)
  | .string, .int i => some (.text (Numeral.ofInt64 i))
  | .bool, .bool b => some (.bool b)
  | _, _ => none

end KeyType

end TreeQuery
