import TreeQuery.Plan.Paging
import TreeQuery.Sql.Predicate
import TreeQuery.Sql.Statement

/-!
Selects of pages. A page is taken in the order it is read in, from the rows strictly past its
cursor, and filters apply before rows are counted off.
-/

namespace TreeQuery.Sql

open Plan (Paging KeysetPage Table)

/-- The order in which a page's rows are taken. -/
def pagingOrder : Paging → List OrderTerm
  | .offset p => p.order.map (fun c => ⟨p.table, c.column, c.direction⟩)
  | .keyset p => p.key.map (fun c => ⟨p.table, c.column, p.direction c⟩)

/-- A column of the sort key with the cursor's value for it. -/
structure CursorTerm where
  table : String
  column : String
  direction : Direction
  value : Token

namespace CursorTerm

def compared (c : CursorTerm) (op : String) : Fragment :=
  [.column c.table c.column, .sql (" " ++ op ++ " ("), c.value, .sql ")"]

def strict (c : CursorTerm) : Fragment :=
  c.compared (match c.direction with
    | .ascending => ">"
    | .descending => "<")

def equal (c : CursorTerm) : Fragment := c.compared "="

end CursorTerm

/-- Strictly past the cursor in lexicographic order. -/
def pastCursor : List CursorTerm → Fragment
  | [] => [.sql "TRUE"]
  | [c] => c.strict
  | c :: r =>
    .lparen :: c.strict ++ .or :: .lparen :: c.equal ++ .and :: pastCursor r ++ [.rparen, .rparen]

def cursorTerms (p : KeysetPage) : SortKey → List Value → Binder (List CursorTerm)
  | c :: key, v :: vs => do
    let t ← bindValue v
    return ⟨p.table, c.column, p.direction c, t⟩ :: (← cursorTerms p key vs)
  | _, _ => return []

def cursorCondition : Paging → Binder (List Fragment)
  | .offset _ => return []
  | .keyset p => match p.cursor with
    | none => return []
    | some vs => return [pastCursor (← cursorTerms p p.key vs)]

def getPaging (t : Table) : Binder Paging := liftM (t.paging.mapError SqlError.paging)

def checkSupport (fl : Flavor) (l : Location) (lateral offset : Bool) : Except SqlError Unit :=
  if lateral && fl = .sqlite then .error (.noLateral l fl)
  else if offset && fl = .sqlite then .error (.noWindow l fl)
  else .ok ()

/-- The page that a table asks for, if the flavor can select it. -/
def supportedPaging (fl : Flavor) (t : Table) (lateral : Bool) : Binder Paging := do
  let p ← getPaging t
  checkSupport fl t.location lateral p.isOffset
  return p

def pageOf (table : TableName) (label : String) (inner : Option InnerJoin)
    (conditions : List Fragment) (p : Paging) : Page where
  table
  label
  counted := p.isOffset
  inner
  conditions
  order := pagingOrder p
  limit := p.limit
  offset := match p with
    | .offset o => some o.offset
    | .keyset _ => none

def rootPage (fl : Flavor) (t : Table) : Binder (List TableItem) := do
  let p ← supportedPaging fl t false
  let own ← filter (.ofTable t.label) t.filter
  let past ← cursorCondition p
  return [.page (pageOf t.name t.label none (own ++ past) p)]

/-- A page of children for each row of the parent. -/
def joinedPage (fl : Flavor) (parent t : Table) (join : List Clause) :
    Binder (List TableItem) := do
  let p ← supportedPaging fl t true
  let a := Labels.ofJoin parent.label t.label
  let joined ← filter a join
  let own ← filter (.ofTable t.label) t.filter
  let past ← cursorCondition p
  let on ← predicate a join
  return [.lateral true (pageOf t.name t.label none (joined ++ own ++ past) p) on]

def scopeTable (column : String) (scope : List Value) : Binder TableItem :=
  return .scope column (← bindValues scope)

/-- Ties the rows of a page to a key of the batch. -/
def correlation (label : String) (keys : Plan.Batch) : Fragment :=
  [.column label keys.thisKey.column, .sql " = ", .column scopeLabel keys.parentKey.column]

def batchPage (fl : Flavor) (t : Table) (keys : Plan.Batch) (scope : List Value) :
    Binder (List TableItem) := do
  let p ← supportedPaging fl t true
  let from_ ← scopeTable keys.parentKey.column scope
  let own ← filter (.ofTable t.label) t.filter
  let past ← cursorCondition p
  let on := correlation t.label keys
  return [from_, .lateral false (pageOf t.name t.label none (on :: own ++ past) p) on]

/-- The children joined inside a page of junction rows, if they filter or order it. -/
def innerJoin (t : Table) (j : Plan.Junction) (toChild : List Clause) :
    Binder (Option InnerJoin) := do
  if t.filter.isEmpty && t.orderBy.isNone && t.sortKey.isNone then return none
  return some ⟨t.name, t.label, ← predicate (.ofJoin j.label t.label) toChild⟩

def junctionPage (fl : Flavor) (parent t : Table) (j : Plan.Junction)
    (fromParent toChild : List Clause) : Binder (List TableItem) := do
  let p ← supportedPaging fl t true
  let a := Labels.ofJoin parent.label j.label
  let joined ← filter a fromParent
  let linked ← filter (.ofTable j.label) j.filter
  let own ← filter (.ofTable t.label) t.filter
  let past ← cursorCondition p
  let inner ← innerJoin t j toChild
  let on ← predicate a fromParent
  return [.lateral true (pageOf j.table j.label inner (joined ++ linked ++ own ++ past) p) on]

def junctionBatchPage (fl : Flavor) (t : Table) (j : Plan.Junction) (keys : Plan.Batch)
    (scope : List Value) (join : List Clause) : Binder (List TableItem) := do
  let p ← supportedPaging fl t true
  let from_ ← scopeTable keys.parentKey.column scope
  let linked ← filter (.ofTable j.label) j.filter
  let own ← filter (.ofTable t.label) t.filter
  let past ← cursorCondition p
  let inner ← innerJoin t j join
  let on := correlation j.label keys
  let child ← predicate (.ofJoin j.label t.label) join
  return [from_,
    .lateral true (pageOf j.table j.label inner (on :: linked ++ own ++ past) p) on,
    .leftJoin t.name t.label true child]

end TreeQuery.Sql
