import TreeQuery.Sql.OfPlan

/-!
Statements with every value written where it is used, as they would read without parameters. There
is nothing to count here, so what a statement says can be seen apart from the order in which its
values are bound.
-/

namespace TreeQuery.Sql.InPlace

open Plan (KeysetPage Node Paging Table)

/-- A value that stands where it is used. No parameter has position zero. -/
def value (v : Value) : Token := .param 0 v

def column (a : Labels) (c : ColumnRef) : Except SqlError Token := do
  return .column (← a.resolve c.role) c.column

def comparison (column : Token) (op : CompareOp) (v : Value) : Fragment :=
  match op, v with
  | .eq, .null => [column, .sql " IS NULL"]
  | .ne, .null => [column, .sql " IS NOT NULL"]
  | _, _ => [column, .sql (" " ++ op.sql ++ " "), value v]

def membership (column : Token) (values : List Value) : Fragment :=
  column :: .sql " IN (" :: commaSeparated (values.map (fun v => [value v])) ++ [.sql ")"]

def piece (a : Labels) (params : Fields Value) : Piece → Except SqlError Token
  | .char c => return .sql c.toString
  | .role r => return .label (← a.resolve r)
  | .param name => return value ((Fields.get? params name).getD .null)

def raw (a : Labels) (sql : String) (params : Fields Value) : Except SqlError Fragment :=
  (pieces (Fields.contains params) sql).mapM (piece a params)

mutual

def condition (a : Labels) : Condition → Except SqlError Fragment
  | .compare c op v => return comparison (← column a c) op v
  | .compareColumns l op r => do
    let left ← column a l
    let right ← column a r
    return [left, .sql (" " ++ op.sql ++ " "), right]
  | .within c values =>
    if values.isEmpty then return [.sql "1 = 0"] else return membership (← column a c) values
  | .raw sql params => raw a sql params
  | .group clauses =>
    if clauses.isEmpty then return [.lparen, .sql "TRUE", .rparen]
    else return .lparen :: (← clauseTokens a true clauses) ++ [.rparen]
  | .exists sql params => return .sql "EXISTS (" :: (← raw a sql params) ++ [.sql ")"]

def clauseTokens (a : Labels) : (first : Bool) → List Clause → Except SqlError Fragment
  | _, [] => return []
  | first, .mk connective negated c :: r => do
    let lead := if first then [] else [Connective.token connective]
    let body ← condition a c
    let body := if negated then .not :: .lparen :: body ++ [.rparen] else body
    return lead ++ body ++ (← clauseTokens a false r)

end

def predicate (a : Labels) (clauses : List Clause) : Except SqlError Fragment := do
  if clauses.isEmpty then return [.sql "TRUE"]
  let tokens ← clauseTokens a true clauses
  return if hasAlternatives clauses then .lparen :: tokens ++ [.rparen] else tokens

def filter (a : Labels) (clauses : List Clause) : Except SqlError (List Fragment) := do
  if clauses.isEmpty then return []
  return [← predicate a clauses]

def cursorTerms (p : KeysetPage) : SortKey → List Value → List CursorTerm
  | c :: key, v :: vs => ⟨p.table, c.column, p.direction c, value v⟩ :: cursorTerms p key vs
  | _, _ => []

def cursorCondition : Paging → List Fragment
  | .offset _ => []
  | .keyset p => match p.cursor with
    | none => []
    | some vs => [pastCursor (cursorTerms p p.key vs)]

def paging (fl : Flavor) (t : Table) (lateral : Bool) : Except SqlError Paging := do
  let p ← t.paging.mapError SqlError.paging
  checkSupport fl t.location lateral p.isOffset
  return p

def rootPage (fl : Flavor) (t : Table) : Except SqlError (List TableItem) := do
  let p ← paging fl t false
  let own ← filter (.ofTable t.label) t.filter
  return [.page (pageOf t.name t.label none (own ++ cursorCondition p) p)]

def joinedPage (fl : Flavor) (parent t : Table) (join : List Clause) :
    Except SqlError (List TableItem) := do
  let p ← paging fl t true
  let a := Labels.ofJoin parent.label t.label
  let joined ← filter a join
  let own ← filter (.ofTable t.label) t.filter
  let on ← predicate a join
  return [.lateral true (pageOf t.name t.label none (joined ++ own ++ cursorCondition p) p) on]

def scopeTable (column : String) (scope : List Value) : TableItem := .scope column (scope.map value)

def batchPage (fl : Flavor) (t : Table) (keys : Plan.Batch) (scope : List Value) :
    Except SqlError (List TableItem) := do
  let p ← paging fl t true
  let own ← filter (.ofTable t.label) t.filter
  let on := correlation t.label keys
  return [scopeTable keys.parentKey.column scope,
    .lateral false (pageOf t.name t.label none (on :: own ++ cursorCondition p) p) on]

def innerJoin (t : Table) (j : Plan.Junction) (toChild : List Clause) :
    Except SqlError (Option InnerJoin) := do
  if t.filter.isEmpty && t.orderBy.isNone && t.sortKey.isNone then return none
  return some ⟨t.name, t.label, ← predicate (.ofJoin j.label t.label) toChild⟩

def junctionPage (fl : Flavor) (parent t : Table) (j : Plan.Junction)
    (fromParent toChild : List Clause) : Except SqlError (List TableItem) := do
  let p ← paging fl t true
  let a := Labels.ofJoin parent.label j.label
  let joined ← filter a fromParent
  let linked ← filter (.ofTable j.label) j.filter
  let own ← filter (.ofTable t.label) t.filter
  let inner ← innerJoin t j toChild
  let on ← predicate a fromParent
  return [.lateral true
    (pageOf j.table j.label inner (joined ++ linked ++ own ++ cursorCondition p) p) on]

def junctionBatchPage (fl : Flavor) (t : Table) (j : Plan.Junction) (keys : Plan.Batch)
    (scope : List Value) (join : List Clause) : Except SqlError (List TableItem) := do
  let p ← paging fl t true
  let linked ← filter (.ofTable j.label) j.filter
  let own ← filter (.ofTable t.label) t.filter
  let inner ← innerJoin t j join
  let on := correlation j.label keys
  let child ← predicate (.ofJoin j.label t.label) join
  return [scopeTable keys.parentKey.column scope,
    .lateral true (pageOf j.table j.label inner (on :: linked ++ own ++ cursorCondition p) p) on,
    .leftJoin t.name t.label true child]

def tableFilter (parent : Option Table) (t : Table) : Except SqlError (List Fragment) := do
  if t.paginate || (t.isBatch && parent.isSome) then return []
  let linked ← match t.junction with
    | some j => filter (.ofTable j.label) j.filter
    | none => pure []
  return linked ++ (← filter (.ofTable t.label) t.filter)

def orders (parent : Option Table) (t : Table) : Except SqlError (List OrderTerm) := do
  if !continues parent t then return []
  if t.paginate then
    return tableOrder t (← t.paging.mapError SqlError.paging).isBackward
  return tableOrder t false

def joinPart (fl : Flavor) (parent : Option Table) (t : Table) (join : List Clause) :
    Except SqlError Part := do
  match parent with
  | none => throw (.rootJoin t.location)
  | some p =>
    if t.paginate then return tablesOnly (← joinedPage fl p t join)
    let on ← predicate (.ofJoin p.label t.label) join
    return tablesOnly [.leftJoin t.name t.label false on]

def junctionBatchPart (fl : Flavor) (parent : Option Table) (path : List String)
    (scope : Option (List Value)) (t : Table) (j : Plan.Junction) (b : Plan.JunctionBatch) :
    Except SqlError Part := do
  match parent with
  | some p => return parentKey p path b.keys.parentKey
  | none =>
    match b.join with
    | none => throw (.noBatchJoin t.location)
    | some join =>
      let scope ← requireScope t scope
      if t.paginate then return tablesOnly (← junctionBatchPage fl t j b.keys scope join)
      let on ← predicate (.ofJoin j.label t.label) join
      let within := membership (.column j.label b.keys.thisKey.column) scope
      return ⟨[], [.base j.table j.label, .leftJoin t.name t.label true on], [within], []⟩

def junctionPart (fl : Flavor) (parent : Option Table) (t : Table) (j : Plan.Junction) :
    Except SqlError Part := do
  match parent with
  | none => throw (.rootJunction t.location)
  | some p =>
    match j.fromParent, j.toChild with
    | none, _ => throw (.noParentJoin t.location)
    | some _, none => throw (.noChildJoin t.location)
    | some fromParent, some toChild =>
      let link ← if t.paginate then junctionPage fl p t j fromParent toChild
        else do
          let on ← predicate (.ofJoin p.label j.label) fromParent
          pure [TableItem.leftJoin j.table j.label false on]
      let on ← predicate (.ofJoin j.label t.label) toChild
      return tablesOnly (link ++ [.leftJoin t.name t.label false on])

def batchPart (fl : Flavor) (parent : Option Table) (path : List String)
    (scope : Option (List Value)) (t : Table) (b : Plan.Batch) : Except SqlError Part := do
  match parent with
  | some p => return parentKey p path b.parentKey
  | none =>
    let scope ← requireScope t scope
    if t.paginate then return tablesOnly (← batchPage fl t b scope)
    let within := membership (.column t.label b.thisKey.column) scope
    return ⟨[], [.base t.name t.label], [within], []⟩

def rootPart (fl : Flavor) (parent : Option Table) (t : Table) : Except SqlError Part := do
  if parent.isSome then throw (.noRelation t.location)
  if t.paginate then return tablesOnly (← rootPage fl t)
  return tablesOnly [.base t.name t.label]

def relationPart (fl : Flavor) (parent : Option Table) (path : List String)
    (scope : Option (List Value)) (t : Table) : Except SqlError Part :=
  match t.join, t.junction, t.batch with
  | some join, _, _ => joinPart fl parent t join
  | none, some j, _ => match j.batch with
    | some b => junctionBatchPart fl parent path scope t j b
    | none => junctionPart fl parent t j
  | none, none, some b => batchPart fl parent path scope t b
  | none, none, none => rootPart fl parent t

def tablePart (fl : Flavor) (parent : Option Table) (path : List String)
    (scope : Option (List Value)) (t : Table) : Except SqlError Part := do
  let conditions ← tableFilter parent t
  let orders ← orders parent t
  let relation ← relationPart fl parent path scope t
  return ⟨[], [], conditions, orders⟩ ++ relation

mutual

def nodePart (fl : Flavor) (parent : Option Table) (path : List String)
    (scope : Option (List Value)) : Node → Except SqlError Part
  | .table t children => do
    let here ← tablePart fl parent path scope t
    if continues parent t then
      return here ++ (← childrenPart fl t (path ++ [t.label]) children)
    else return here
  | .column c => match parent with
    | some p => return selectOnly (columnSource p c) path c.label
    | none => throw (.orphanColumn c.location)
  | .composite c => match parent with
    | some p => return selectOnly (compositeSource fl p c.columns) path c.label
    | none => throw (.orphanColumn c.location)
  | .noop _ _ => return .empty

def childrenPart (fl : Flavor) (parent : Table) (path : List String) :
    List Node → Except SqlError Part
  | [] => return .empty
  | c :: r => do
    let here ← nodePart fl (some parent) path none c
    return here ++ (← childrenPart fl parent path r)

end

/-- The parts of a table's statement, with its values in place. -/
def statement (fl : Flavor) (node : Node) (scope : Option (List Value)) : Except SqlError Part :=
  match node.table? with
  | none => .error (.notATable node.location)
  | some t =>
    if scope.any List.isEmpty then .error (.emptyScope t.location)
    else nodePart fl none [] scope node

end TreeQuery.Sql.InPlace
