import TreeQuery.Schema.Basic

/-!
The plan of a request: a tree of tables with the columns to fetch from each. Batch boundaries
divide it into statements.
-/

namespace TreeQuery

/-- The response keys on the way from the query type. -/
abbrev Location := List String

def Location.text (l : Location) : String := String.intercalate "." l

namespace Plan

inductive ColumnSource where
  | name (column : String)
  | expression (sql : String)
  deriving DecidableEq

structure Column where
  source : ColumnSource
  fieldName : String
  label : String
  isIdentity : Bool
  /-- The label of another table to read from, as a junction's. -/
  fromTable : Option String
  location : Location
  deriving DecidableEq

/-- Several columns that together are the identity of a row. -/
structure Composite where
  columns : List String
  label : String
  location : Location
  deriving DecidableEq

def Composite.fieldName (c : Composite) : String := String.intercalate "#" c.columns

structure BatchKey where
  column : String
  fieldName : String
  label : String
  deriving DecidableEq

/-- Children are fetched for many parents at once: `thisKey` of a child is a key of its parent's
`parentKey`. -/
structure Batch where
  thisKey : BatchKey
  parentKey : BatchKey
  deriving DecidableEq

structure JunctionBatch where
  keys : Batch
  join : Option (List Clause)

structure Junction where
  table : TableName
  label : String
  fromParent : Option (List Clause)
  toChild : Option (List Clause)
  filter : List Clause
  orderBy : Option OrderBy
  sortKey : Option SortKey
  batch : Option JunctionBatch

structure Table where
  name : TableName
  label : String
  fieldName : String
  arguments : Arguments
  join : Option (List Clause)
  junction : Option Junction
  batch : Option Batch
  filter : List Clause
  orderBy : Option OrderBy
  sortKey : Option SortKey
  paginate : Bool
  many : Bool
  location : Location

namespace Table

def junctionBatch? (t : Table) : Option JunctionBatch := t.junction.bind Junction.batch

def isBatch (t : Table) : Bool := t.batch.isSome || t.junctionBatch?.isSome

def batchKeys? (t : Table) : Option Batch :=
  t.batch.or (t.junctionBatch?.map JunctionBatch.keys)

theorem isBatch_eq (t : Table) : t.isBatch = t.batchKeys?.isSome := by
  rw [isBatch, batchKeys?]
  cases t.batch <;> cases t.junctionBatch? <;> rfl

/-- The sort key that drives a page, with the label of its table: the table's own, or else its
junction's. -/
def keyset? (t : Table) : Option (SortKey × String) :=
  match t.sortKey with
  | some key => some (key, t.label)
  | none => t.junction.bind (fun j => j.sortKey.map (fun key => (key, j.label)))

def offsetOrder? (t : Table) : Option (OrderBy × String) :=
  match t.orderBy with
  | some order => some (order, t.label)
  | none => t.junction.bind (fun j => j.orderBy.map (fun order => (order, j.label)))

def isOffsetPaginated (t : Table) : Bool :=
  t.paginate && t.keyset?.isNone && t.offsetOrder?.isSome

end Table

inductive Node where
  | table (t : Table) (children : List Node)
  | column (c : Column)
  | composite (c : Composite)
  /-- A relation to a type without a table. -/
  | noop (fieldName : String) (location : Location)

namespace Node

def location : Node → Location
  | .table t _ => t.location
  | .column c => c.location
  | .composite c => c.location
  | .noop _ l => l

def table? : Node → Option Table
  | .table t _ => some t
  | _ => none

def children : Node → List Node
  | .table _ cs => cs
  | _ => []

/-- A batch boundary starts a statement of its own. -/
def isBatch : Node → Bool
  | .table t _ => t.isBatch
  | _ => false

mutual

def hasBatchBelow : Node → Bool
  | .table _ cs => anyBatch cs
  | _ => false

/-- One of the nodes is a batch boundary or has one below it. -/
def anyBatch : List Node → Bool
  | [] => false
  | c :: r => c.isBatch || c.hasBatchBelow || anyBatch r

end

/-- A joined table whose objects lead to batches. -/
def isJoinedToBatch (c : Node) : Bool := !c.isBatch && c.hasBatchBelow

mutual

/-- How many nodes there are in the tree. -/
def size : Node → Nat
  | .table _ cs => sizes cs + 1
  | _ => 1

def sizes : List Node → Nat
  | [] => 0
  | c :: r => size c + sizes r

end

end Node

end Plan

end TreeQuery
