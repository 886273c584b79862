import TreeQuery.Plan.Basic
import TreeQuery.Plan.Namespace
import TreeQuery.Schema.Validation
import TreeQuery.Selection
import TreeQuery.Text.Identifier
import TreeQuery.Text.Segments

/-!
The plan of a selection. Below each table stand its identity, the columns it always needs, those
that paging and batching read, and then what was selected, in that order.
-/

namespace TreeQuery.Plan

inductive PlanError where
  | noField (location : Location) (field typeName : String)
  | scalarRoot (location : Location)
  | unknownType (location : Location) (typeName : String)
  | notATable
  | noTable (typeName : String)
  | noUniqueKey (typeName : String)
  | noRelation (location : Location) (typeName : String)

def PlanError.message : PlanError → String
  | .noField l f t => "`" ++ l.text ++ "` has no field `" ++ f ++ "` on type `" ++ t ++ "`"
  | .scalarRoot l => "`" ++ l.text ++ "` is a scalar and cannot be a root field"
  | .unknownType l t => "`" ++ l.text ++ "` refers to unknown type `" ++ t ++ "`"
  | .notATable => "only tables have columns"
  | .noTable t => "type `" ++ t ++ "` has no table"
  | .noUniqueKey t => "type `" ++ t ++ "` has no unique key"
  | .noRelation l t =>
    "`" ++ l.text ++ "` needs a join, a batch or a junction to reach `" ++ t ++ "`"

def PlanError.toError (e : PlanError) : Error := .invalidConfiguration e.message

/-- Planning hands out labels as it goes. -/
abbrev Planner := StateT Namespace (Except PlanError)

/-- The column that counts all rows of an offset page. -/
def totalColumn : String := "$total"

def columnLabel (name : String) : Planner String := modifyGet (fun ns => ns.takeColumn name)

def tableLabel (name : String) : Planner String := modifyGet (fun ns => ns.takeTable name)

def batchKey (column : String) : Planner BatchKey :=
  return ⟨column, column, ← columnLabel column⟩

variable {Ctx : Type}

def delegated {α : Type} (d : Option (Delegate Ctx (List α))) (args : Arguments) (cx : Ctx) :
    List α :=
  match d with
  | some f => f args cx
  | none => []

/-- An order without columns is none. -/
def ordering {α : Type} (d : Option (Delegate Ctx (List α))) (args : Arguments) (cx : Ctx) :
    Option (List α) :=
  (d.map (fun f => f args cx)).filter (fun order => !order.isEmpty)

def junctionName : TableName → String
  | .ident name => Segments.last name
  | .expr _ => "junction"

def planKeys (thisKey parentKey : String) : Planner Batch := do
  let this ← batchKey thisKey
  let parent ← batchKey parentKey
  return ⟨this, parent⟩

def planBatch? : Option BatchConfig → Planner (Option Batch)
  | none => return none
  | some b => return some (← planKeys b.thisKey b.parentKey)

def planJunctionBatch? (args : Arguments) (cx : Ctx) :
    Option (JunctionBatchConfig Ctx) → Planner (Option JunctionBatch)
  | none => return none
  | some b => return some ⟨← planKeys b.thisKey b.parentKey, b.join.map (fun f => f args cx)⟩

def planJunction? (args : Arguments) (cx : Ctx) :
    Option (JunctionConfig Ctx) → Planner (Option Junction)
  | none => return none
  | some c => do
    let label ← tableLabel (junctionName c.table)
    let batch ← planJunctionBatch? args cx c.batch
    return some {
      table := c.table
      label
      fromParent := c.fromParent.map (fun f => f args cx)
      toChild := c.toChild.map (fun f => f args cx)
      filter := delegated c.filter args cx
      orderBy := ordering c.orderBy args cx
      sortKey := ordering c.sortKey args cx
      batch }

/-- The table that a relation leads to. -/
def planTable (cx : Ctx) (field : Field Ctx) (config : TableConfig Ctx) (many : Bool)
    (responseKey : String) (args : Arguments) (location : Location) : Planner Table := do
  let label ← tableLabel responseKey
  let batch ← planBatch? field.batch
  let junction ← planJunction? args cx field.junction
  return {
    name := config.source.resolve args cx
    label
    fieldName := responseKey
    arguments := args
    join := field.join.map (fun f => f args cx)
    junction
    batch
    filter := delegated field.filter args cx
    orderBy := ordering field.orderBy args cx
    sortKey := ordering field.sortKey args cx
    paginate := field.paginate
    many
    location }

/-- A column of a table, computed if the table computes its columns. -/
def plainColumn (cx : Ctx) (config : TableConfig Ctx) (t : Table) (column fieldName : String)
    (location : Location) : Planner Column := do
  let label ← columnLabel fieldName
  let source := match config.columnExpression with
    | some f => .expression (f (Identifier.quote t.label) column t.arguments cx)
    | none => .name column
  return ⟨source, fieldName, label, false, none, location⟩

def plainColumns (cx : Ctx) (config : TableConfig Ctx) (t : Table) (location : Location) :
    List String → Planner (List Node)
  | [] => return []
  | c :: r => do
    let column ← plainColumn cx config t c c location
    return .column column :: (← plainColumns cx config t location r)

def identityNode (cx : Ctx) (typeName : String) (config : TableConfig Ctx) (t : Table) :
    Planner Node := do
  match config.uniqueKey with
  | [] => throw (.noUniqueKey typeName)
  | [c] =>
    let column ← plainColumn cx config t c c t.location
    return .column { column with isIdentity := true }
  | cs =>
    let label ← columnLabel (String.intercalate "#" cs)
    return .composite ⟨cs, label, t.location⟩

/-- The sort key under its names in cursors, from the table it applies to. -/
def keysetNodes (t : Table) (from_ : String) : SortKey → Planner (List Node)
  | [] => return []
  | c :: r => do
    let label ← columnLabel c.name
    let source := if from_ = t.label then none else some from_
    return .column ⟨.name c.column, c.name, label, false, source, t.location⟩ ::
      (← keysetNodes t from_ r)

def pagingNodes (t : Table) : Planner (List Node) := do
  if !t.paginate then return []
  match t.keyset?, t.offsetOrder? with
  | some (key, label), _ => keysetNodes t label key
  | none, some _ =>
    let page := (t.junction.map Junction.label).getD t.label
    let label ← columnLabel totalColumn
    let sql := Identifier.quote page ++ "." ++ Identifier.quote totalColumn
    return [.column ⟨.expression sql, totalColumn, label, false, none, t.location⟩]
  | none, none => return []

/-- The correlation key of a batch is part of the identity, as a junction may lead to one child
from several parents. -/
def batchNodes (t : Table) : List Node :=
  match t.batchKeys? with
  | none => []
  | some keys =>
    let source := t.junctionBatch?.bind (fun _ => t.junction.map Junction.label)
    [.column ⟨.name keys.thisKey.column, keys.thisKey.fieldName, keys.thisKey.label, true, source,
      t.location⟩]

/-- The nodes of a table that no selection asks for. -/
def headNodes (cx : Ctx) (typeName : String) (config : TableConfig Ctx) (t : Table) :
    Planner (List Node) := do
  let identity ← identityNode cx typeName config t
  let always ← plainColumns cx config t t.location config.alwaysFetch
  let paging ← pagingNodes t
  return identity :: always ++ paging ++ batchNodes t

def findField (type : ObjectType Ctx) (name : String) (location : Location) :
    Except PlanError (Field Ctx) :=
  match type.field? name with
  | some f => .ok f
  | none => .error (.noField location name type.name)

/-- The type of a relation and whether it leads to many; a scalar has none. -/
def target (s : Schema Ctx) (field : Field Ctx) (location : Location) :
    Except PlanError (Option (ObjectType Ctx × Bool)) :=
  match field.type with
  | .scalar => .ok none
  | .object name list => match s.type? name with
    | some t => .ok (some (t, list))
    | none => .error (.unknownType location name)

def checkRelated (field : Field Ctx) (child : ObjectType Ctx) (location : Location) :
    Except PlanError Unit :=
  if field.relationCount = 0 then .error (.noRelation location child.name) else .ok ()

/-- The table that the columns of a type are fetched from, and how. -/
def requireTable (type : ObjectType Ctx) (n : Node) : Except PlanError (Table × TableConfig Ctx) :=
  match n.table?, type.table with
  | none, _ => .error .notATable
  | some _, none => .error (.noTable type.name)
  | some t, some config => .ok (t, config)

/-- The column that a selected scalar reads. -/
def scalarNode (cx : Ctx) (config : TableConfig Ctx) (t : Table) (field : Field Ctx)
    (responseKey : String) (args : Arguments) (location : Location) : Planner Node := do
  match field.expression with
  | some f =>
    let label ← columnLabel responseKey
    return .column ⟨.expression (f (Identifier.quote t.label) args cx), responseKey, label, false,
      none, location⟩
  | none => return .column (← plainColumn cx config t field.columnName responseKey location)

def isIntrospection (name : String) : Bool := ['_', '_'].isPrefixOf name.toList

mutual

/-- The nodes that a selection adds below the table `t` of a type. -/
def planField (s : Schema Ctx) (cx : Ctx) (type : ObjectType Ctx) (config : TableConfig Ctx)
    (t : Table) : Selection → Planner (List Node)
  | ⟨name, label, args, selections⟩ => do
    if isIntrospection name then return []
    let responseKey := label.getD name
    let field ← findField type name t.location
    let location := t.location ++ [responseKey]
    if field.ignored then return ← plainColumns cx config t location field.dependencies
    match ← target s field location with
    | none => return [← scalarNode cx config t field responseKey args location]
    | some (childType, many) => match childType.table with
      | none => return [.noop responseKey location]
      | some childConfig => do
        let child ← planTable cx field childConfig many responseKey args location
        checkRelated field childType location
        let (child, childConfig) ← requireTable childType (.table child [])
        let head ← headNodes cx childType.name childConfig child
        let rest ← (if child.paginate then planEdges s cx childType childConfig child selections
          else planFields s cx childType childConfig child selections)
        return [.table child (head ++ rest)]

def planFields (s : Schema Ctx) (cx : Ctx) (type : ObjectType Ctx) (config : TableConfig Ctx)
    (t : Table) : List Selection → Planner (List Node)
  | [] => return []
  | x :: r => do
    let here ← planField s cx type config t x
    return here ++ (← planFields s cx type config t r)

/-- Of a page only the fields of `edges { node }` are fetched. -/
def planEdges (s : Schema Ctx) (cx : Ctx) (type : ObjectType Ctx) (config : TableConfig Ctx)
    (t : Table) : List Selection → Planner (List Node)
  | [] => return []
  | ⟨name, _, _, selections⟩ :: r => do
    let here ← if name = "edges" then planNodes s cx type config t selections else pure []
    return here ++ (← planEdges s cx type config t r)

def planNodes (s : Schema Ctx) (cx : Ctx) (type : ObjectType Ctx) (config : TableConfig Ctx)
    (t : Table) : List Selection → Planner (List Node)
  | [] => return []
  | ⟨name, _, _, selections⟩ :: r => do
    let here ← if name = "node" then planFields s cx type config t selections else pure []
    return here ++ (← planNodes s cx type config t r)

end

def planRoot (s : Schema Ctx) (cx : Ctx) (x : Selection) : Planner Node := do
  let field ← findField s.queryType x.name [s.queryType.name]
  let location := [s.queryType.name, x.responseKey]
  match ← target s field location with
  | none => throw (.scalarRoot location)
  | some (type, many) => match type.table with
    | none => return .noop x.responseKey location
    | some config => do
      let t ← planTable cx field config many x.responseKey x.arguments location
      let (t, config) ← requireTable type (.table t [])
      let head ← headNodes cx type.name config t
      let rest ← (if t.paginate then planEdges s cx type config t x.selections
        else planFields s cx type config t x.selections)
      return .table t (head ++ rest)

end Plan

/-- The plan of a field of the query type. -/
def Schema.plan {Ctx : Type} (s : Schema Ctx) (minify : Bool) (cx : Ctx) (x : Selection) :
    Except Plan.PlanError Plan.Node :=
  (Plan.planRoot s cx x |>.run (Plan.Namespace.start minify)).map Prod.fst

end TreeQuery
