import TreeQuery.Arguments
import TreeQuery.Clause.Basic
import TreeQuery.Order

/-!
How object types and their fields map onto tables and columns. What depends on the request is a
function of the field's arguments and of a context that the caller chooses.
-/

namespace TreeQuery

inductive TableName where
  /-- A name whose parts are divided by dots. -/
  | ident (name : String)
  | expr (sql : String)
  deriving DecidableEq

def TableName.text : TableName → String
  | .ident name => name
  | .expr sql => sql

/-- Decided anew for every use of a field. -/
abbrev Delegate (Ctx α : Type) := Arguments → Ctx → α

inductive TableSource (Ctx : Type) where
  | static (name : TableName)
  | dynamic (name : Delegate Ctx TableName)

def TableSource.resolve {Ctx : Type} (s : TableSource Ctx) (args : Arguments) (cx : Ctx) :
    TableName :=
  match s with
  | .static name => name
  | .dynamic f => f args cx

structure TableConfig (Ctx : Type) where
  source : TableSource Ctx
  uniqueKey : List String
  alwaysFetch : List String
  /-- Computes a column from the quoted label of the table and the column's name. -/
  columnExpression : Option (String → String → Delegate Ctx String)

structure BatchConfig where
  thisKey : String
  parentKey : String

structure JunctionBatchConfig (Ctx : Type) where
  thisKey : String
  parentKey : String
  join : Option (Delegate Ctx (List Clause))

/-- A table that links parents to children. -/
structure JunctionConfig (Ctx : Type) where
  table : TableName
  fromParent : Option (Delegate Ctx (List Clause))
  toChild : Option (Delegate Ctx (List Clause))
  filter : Option (Delegate Ctx (List Clause))
  orderBy : Option (Delegate Ctx OrderBy)
  sortKey : Option (Delegate Ctx SortKey)
  batch : Option (JunctionBatchConfig Ctx)

inductive FieldType where
  | scalar
  | object (typeName : String) (list : Bool)
  deriving DecidableEq

structure Field (Ctx : Type) where
  name : String
  type : FieldType
  column : Option String
  /-- Computes a scalar from the quoted label of its table. -/
  expression : Option (String → Delegate Ctx String)
  /-- Fetches its dependencies and is not part of the response. -/
  ignored : Bool
  dependencies : List String
  join : Option (Delegate Ctx (List Clause))
  batch : Option BatchConfig
  junction : Option (JunctionConfig Ctx)
  filter : Option (Delegate Ctx (List Clause))
  orderBy : Option (Delegate Ctx OrderBy)
  sortKey : Option (Delegate Ctx SortKey)
  paginate : Bool

def Field.columnName {Ctx : Type} (f : Field Ctx) : String := f.column.getD f.name

structure ObjectType (Ctx : Type) where
  name : String
  table : Option (TableConfig Ctx)
  fields : List (String × Field Ctx)

namespace ObjectType

variable {Ctx : Type}

/-- A field declared again takes the place of the first one of its name. -/
def ofFields (name : String) (table : Option (TableConfig Ctx)) (fields : List (Field Ctx)) :
    ObjectType Ctx :=
  ⟨name, table, Fields.ofPairs (fields.map (fun f => (f.name, f)))⟩

def field? (t : ObjectType Ctx) (name : String) : Option (Field Ctx) := Fields.get? t.fields name

end ObjectType

end TreeQuery
