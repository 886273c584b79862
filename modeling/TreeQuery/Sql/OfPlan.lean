import TreeQuery.Sql.Page

/-!
The statement of a plan's table: everything below it down to, but not past, the next batch
boundaries. Of a boundary only the key is selected that its batch is correlated on.
-/

namespace TreeQuery.Sql

open Plan (Node Table)

/-- The labels on the way from the statement's root, which itself is left out. -/
def outputPath (path : List String) : String :=
  String.join (path.tail.map (fun a => a ++ "__"))

/-- A batch boundary below another table belongs to a statement of its own. -/
def continues (parent : Option Table) (t : Table) : Bool := parent.isNone || !t.isBatch

def tableFilter (parent : Option Table) (t : Table) : Binder (List Fragment) := do
  if t.paginate || (t.isBatch && parent.isSome) then return []
  let linked ← match t.junction with
    | some j => filter (.ofTable j.label) j.filter
    | none => pure []
  return linked ++ (← filter (.ofTable t.label) t.filter)

/-- The order of the flat rows: plain orders before sort keys, a junction's before its table's.
A backward page reads sort keys the other way. -/
def tableOrder (t : Table) (backward : Bool) : List OrderTerm :=
  let plain (label : String) (o : Option OrderBy) : List OrderTerm :=
    (o.getD []).map (fun c => ⟨label, c.column, c.direction⟩)
  let keyed (label : String) (k : Option SortKey) : List OrderTerm :=
    (k.getD []).map
      (fun c => ⟨label, c.column, if backward then c.direction.flip else c.direction⟩)
  let junction {α : Type} (f : Plan.Junction → List α) : List α :=
    match t.junction with
    | some j => f j
    | none => []
  junction (fun j => plain j.label j.orderBy) ++ plain t.label t.orderBy ++
    junction (fun j => keyed j.label j.sortKey) ++ keyed t.label t.sortKey

def orderPart (parent : Option Table) (t : Table) : Binder (List OrderTerm) := do
  if !continues parent t then return []
  if t.paginate then return tableOrder t (← getPaging t).isBackward
  return tableOrder t false

/-- Selects what the children of a batch boundary are matched by. -/
def parentKey (parent : Table) (path : List String) (key : Plan.BatchKey) : Part :=
  { Part.empty with items := [⟨[.column parent.label key.column], outputPath path ++ key.label⟩] }

def requireScope (t : Table) (scope : Option (List Value)) : Except SqlError (List Value) :=
  match scope with
  | some vs => .ok vs
  | none => .error (.noScope t.location)

def tablesOnly (items : List TableItem) : Part := { Part.empty with tables := items }

def joinPart (fl : Flavor) (parent : Option Table) (t : Table) (join : List Clause) :
    Binder Part := do
  match parent with
  | none => throw (.rootJoin t.location)
  | some p =>
    if t.paginate then return tablesOnly (← joinedPage fl p t join)
    let on ← predicate (.ofJoin p.label t.label) join
    return tablesOnly [.leftJoin t.name t.label false on]

def junctionBatchPart (fl : Flavor) (parent : Option Table) (path : List String)
    (scope : Option (List Value)) (t : Table) (j : Plan.Junction) (b : Plan.JunctionBatch) :
    Binder Part := do
  match parent with
  | some p => return parentKey p path b.keys.parentKey
  | none =>
    match b.join with
    | none => throw (.noBatchJoin t.location)
    | some join =>
      let scope ← requireScope t scope
      if t.paginate then return tablesOnly (← junctionBatchPage fl t j b.keys scope join)
      let on ← predicate (.ofJoin j.label t.label) join
      let within ← membership (.column j.label b.keys.thisKey.column) scope
      return ⟨[], [.base j.table j.label, .leftJoin t.name t.label true on], [within], []⟩

def junctionPart (fl : Flavor) (parent : Option Table) (t : Table) (j : Plan.Junction) :
    Binder Part := do
  match parent with
  | none => throw (.rootJunction t.location)
  | some p =>
    match j.fromParent, j.toChild with
    | none, _ => throw (.noParentJoin t.location)
    | some _, none => throw (.noChildJoin t.location)
    | some fromParent, some toChild =>
      let link ← if t.paginate then junctionPage fl p t j fromParent toChild
        else do
          let on ← predicate (.ofJoin p.label j.label) fromParent
          pure [TableItem.leftJoin j.table j.label false on]
      let on ← predicate (.ofJoin j.label t.label) toChild
      return tablesOnly (link ++ [.leftJoin t.name t.label false on])

def batchPart (fl : Flavor) (parent : Option Table) (path : List String)
    (scope : Option (List Value)) (t : Table) (b : Plan.Batch) : Binder Part := do
  match parent with
  | some p => return parentKey p path b.parentKey
  | none =>
    let scope ← requireScope t scope
    if t.paginate then return tablesOnly (← batchPage fl t b scope)
    let within ← membership (.column t.label b.thisKey.column) scope
    return ⟨[], [.base t.name t.label], [within], []⟩

def rootPart (fl : Flavor) (parent : Option Table) (t : Table) : Binder Part := do
  if parent.isSome then throw (.noRelation t.location)
  if t.paginate then return tablesOnly (← rootPage fl t)
  return tablesOnly [.base t.name t.label]

/-- How a table is reached. -/
def relationPart (fl : Flavor) (parent : Option Table) (path : List String)
    (scope : Option (List Value)) (t : Table) : Binder Part :=
  match t.join, t.junction, t.batch with
  | some join, _, _ => joinPart fl parent t join
  | none, some j, _ => match j.batch with
    | some b => junctionBatchPart fl parent path scope t j b
    | none => junctionPart fl parent t j
  | none, none, some b => batchPart fl parent path scope t b
  | none, none, none => rootPart fl parent t

def tablePart (fl : Flavor) (parent : Option Table) (path : List String)
    (scope : Option (List Value)) (t : Table) : Binder Part := do
  let conditions ← tableFilter parent t
  let orders ← orderPart parent t
  let relation ← relationPart fl parent path scope t
  return ⟨[], [], conditions, orders⟩ ++ relation

def columnSource (parent : Table) (c : Plan.Column) : Fragment :=
  match c.source with
  | .name column => [.column (c.fromTable.getD parent.label) column]
  | .expression sql => [.sql sql]

/-- The columns of a composite key as one text, null if it is empty. -/
def compositeSource (fl : Flavor) (parent : Table) (columns : List String) : Fragment :=
  let columns : List Fragment := columns.map (fun c => [.column parent.label c])
  match fl with
  | .postgresql => .sql "NULLIF(CONCAT(" :: commaSeparated columns ++ [.sql "), '')"]
  | .sqlite => .sql "NULLIF(" :: between (.sql " || ") columns ++ [.sql ", '')"]

def selectOnly (source : Fragment) (path : List String) (label : String) : Part :=
  { Part.empty with items := [⟨source, outputPath path ++ label⟩] }

mutual

def nodePart (fl : Flavor) (parent : Option Table) (path : List String)
    (scope : Option (List Value)) : Node → Binder Part
  | .table t children => do
    let here ← tablePart fl parent path scope t
    if continues parent t then
      return here ++ (← childrenPart fl t (path ++ [t.label]) children)
    else return here
  | .column c => match parent with
    | some p => return selectOnly (columnSource p c) path c.label
    | none => throw (.orphanColumn c.location)
  | .composite c => match parent with
    | some p => return selectOnly (compositeSource fl p c.columns) path c.label
    | none => throw (.orphanColumn c.location)
  | .noop _ _ => return .empty

def childrenPart (fl : Flavor) (parent : Table) (path : List String) :
    List Node → Binder Part
  | [] => return .empty
  | c :: r => do
    let here ← nodePart fl (some parent) path none c
    return here ++ (← childrenPart fl parent path r)

end

/-- The statement of a table; a batch boundary needs the keys of the parents, its scope. -/
def statement (fl : Flavor) (node : Node) (scope : Option (List Value)) :
    Except SqlError Statement :=
  match node.table? with
  | none => .error (.notATable node.location)
  | some t =>
    if scope.any List.isEmpty then .error (.emptyScope t.location)
    else (nodePart fl none [] scope node |>.run .empty).map (fun (p, ps) => ⟨p, ps⟩)

def compile (fl : Flavor) (node : Node) (scope : Option (List Value)) : Except SqlError Query :=
  (statement fl node scope).map (Statement.query fl)

end TreeQuery.Sql
