import TreeQuery.Batch
import TreeQuery.Connection
import TreeQuery.Session
import TreeQuery.Sql.OfPlan

/-!
Runs a plan: the statement of the root, then the batches below each table, each with everything
nested in it before the next one.
-/

namespace TreeQuery

inductive RunError where
  | schema (e : SchemaError)
  | plan (e : Plan.PlanError)
  | shape (e : Shape.ShapeError)
  | sql (e : Sql.SqlError)
  | result (e : ResultError)
  | connection (e : ConnectionError)
  | notABatch (location : Location)
  /-- From the database, or a cancelled run. -/
  | session (e : Error)

def RunError.toError : RunError → Error
  | .schema e => e.toError
  | .plan e => e.toError
  | .shape e => e.toError
  | .sql e => e.toError
  | .result e => e.toError
  | .connection e => e.toError
  | .notABatch l => .invalidConfiguration ("`" ++ l.text ++ "` is not a batch")
  | .session e => e

namespace Execution

open Plan (Node Table)

variable {σ : Type}

abbrev Task (σ α : Type) := Run σ RunError α

/-- The shape of the objects of a table. -/
def shapeOf (node : Node) : Except ResultError Shape :=
  (Shape.ofNode "" node).mapError (fun _ => .notShaped node.location)

/-- The objects that the statement of a table returns. -/
def fetch (fl : Sql.Flavor) (d : Driver σ) (node : Node) (scope : Option (List Value)) :
    Task σ (List Value) := do
  let q ← Run.ofExcept .sql (Sql.compile fl node scope)
  let shape ← Run.ofExcept .result (shapeOf node)
  let rows ← Session.query d .session q
  Run.ofExcept .result (Hydration.objects shape rows)

/-- The children of one key: a page of them, or all. -/
def groupValue (t : Table) (items : List Value) : Except ConnectionError Value :=
  if t.paginate then Connection.ofItems t items else .ok (.list items)

def groupValues (t : Table) : Grouping Key Value → Except ConnectionError Groups
  | [] => return []
  | (k, items) :: r => do
    let v ← groupValue t items
    return (k, v) :: (← groupValues t r)

def requireKeys (t : Table) : Except RunError Plan.Batch :=
  match t.batchKeys? with
  | some keys => .ok keys
  | none => .error (.notABatch t.location)

/-- The children of a batch boundary for the keys in scope. -/
def fetchGroups (fl : Sql.Flavor) (d : Driver σ) (t : Table) (children : List Node)
    (scope : List Key) : Task σ Groups := do
  let items ← fetch fl d (.table t children) (some (scope.map Key.toValue))
  let keys ← Run.ofExcept id (requireKeys t)
  let items ← Run.ofExcept .connection (items.mapM (Connection.convertChildren children))
  Run.ofExcept .connection (groupValues t (Groups.ofItems keys.thisKey.fieldName items))

abbrev Fetched := List (Table × Option Groups)

/-- Fetches the batches of some objects, attaches them, and goes on to the joined tables. -/
def level (fetchAll : List (Fields Value) → Task σ Fetched)
    (joined : List (Fields Value) → Task σ (List (Fields Value)))
    (objects : List (Fields Value)) : Task σ (List (Fields Value)) := do
  let fetched ← fetchAll objects
  joined (Batch.attachAll fetched objects)

/-- Changes the objects in some values. -/
def onValues (f : List (Fields Value) → Task σ (List (Fields Value))) (values : List Value) :
    Task σ (List Value) := do
  let objects ← f (Value.itemObjects values)
  return (Value.refillItems values objects).1

def onGroups (f : List (Fields Value) → Task σ (List (Fields Value))) (groups : Groups) :
    Task σ Groups := do
  let values ← onValues f (groups.map Prod.snd)
  return (groups.map Prod.fst).zip values

/-- Changes the values that objects have in a field. Those without the field stay as they are. -/
def putField (name : String) : List (Fields Value) → List Value → List (Fields Value)
  | [], _ => []
  | o :: os, vs =>
    if Fields.contains o name then
      match vs with
      | v :: vs => Fields.insert o name v :: putField name os vs
      | [] => o :: putField name os []
    else o :: putField name os vs

mutual

/-- Completes the objects of a table with what lies in the statements below it. -/
def complete (fl : Sql.Flavor) (d : Driver σ) :
    Node → List (Fields Value) → Task σ (List (Fields Value))
  | .table _ children =>
    let batches := Run.Waiting.ofCount (children.countP Node.isBatch)
    let joined := Run.Waiting.ofCount (children.countP Node.isJoinedToBatch)
    level (fetchBatches fl d batches children) (runJoined fl d joined [] children)
  | _ => pure

/-- Runs the batch boundaries among the children of a table, for the objects of that table. -/
def fetchBatches (fl : Sql.Flavor) (d : Driver σ) (w : Run.Waiting) :
    List Node → List (Fields Value) → Task σ Fetched
  | [], _ => return []
  | .table t children :: r, objects =>
    if t.isBatch then
      let scope := Batch.scope t objects
      let run : Task σ (Option Groups) :=
        if scope.isEmpty then return none
        else do
          let groups ← fetchGroups fl d t children scope
          if Node.anyBatch children then
            some <$> onGroups (complete fl d (.table t children)) groups
          else return some groups
      run.beside w none (fun groups => do
        return (t, groups) :: (← fetchBatches fl d w r objects))
    else fetchBatches fl d w r objects
  | _ :: r, objects => fetchBatches fl d w r objects

/-- Goes into the joined tables that have batches below them. Of joined tables with one field
name only the first has values. -/
def runJoined (fl : Sql.Flavor) (d : Driver σ) (w : Run.Waiting) (seen : List String) :
    List Node → List (Fields Value) → Task σ (List (Fields Value))
  | [], objects => return objects
  | .table t children :: r, objects =>
    if t.isBatch || !Node.anyBatch children || seen.contains t.fieldName then
      runJoined fl d w seen r objects
    else
      let run : Task σ (List (Fields Value)) := do
        let values := objects.filterMap (fun o => Fields.get? o t.fieldName)
        let values ← onValues (complete fl d (.table t children)) values
        return putField t.fieldName objects values
      run.beside w objects (fun objects => runJoined fl d w (t.fieldName :: seen) r objects)
  | _ :: r, objects => runJoined fl d w seen r objects

end

/-- The value of a planned request. -/
def run (fl : Sql.Flavor) (d : Driver σ) (root : Node) : Task σ Value :=
  match root with
  | .table t children => do
    let items ← fetch fl d root none
    let value := if t.many || t.paginate then .list items else items.headD .null
    let value ← Run.ofExcept .connection (Connection.convert root value)
    if Node.anyBatch children then
      let values ← onValues (complete fl d root) [value]
      return values.headD .null
    else return value
  | _ => return .null

/-- Plans a field of the query type and checks the shapes of all its statements before the first
is issued. -/
def ofSelection {Ctx : Type} (schema : Schema Ctx) (fl : Sql.Flavor) (minify : Bool) (cx : Ctx)
    (d : Driver σ) (x : Selection) : Task σ Value := do
  let root ← Run.ofExcept .plan (schema.plan minify cx x)
  Run.ofExcept .shape (Shape.checkPlan root)
  run fl d root

end Execution

/-- The value of a field of the query type, and the session after the run. -/
def execute {Ctx σ : Type} (schema : Schema Ctx) (fl : Sql.Flavor) (minify : Bool) (cx : Ctx)
    (d : Driver σ) (x : Selection) (s : Session σ) : Except Error Value × Session σ :=
  match Execution.ofSelection schema fl minify cx d x s with
  | (.ok v, s) => (.ok v, s)
  | (.error (.failed e), s) => (.error e.toError, s)
  | (.error .hung, s) => (.error .cancelled, s)

end TreeQuery
