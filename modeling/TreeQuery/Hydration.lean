import TreeQuery.Grouping
import TreeQuery.Row
import TreeQuery.Shape
import TreeQuery.Text.Quoted
import TreeQuery.Value.Key

/-!
Folds flat rows into objects. Rows with equal identity are one object, in the order in which they
first appear; a row whose identity is null altogether found no match and is left out.
-/

namespace TreeQuery

inductive ResultError where
  | missingColumn (label : String) (columns : List String)
  | notAList (location : Location) (kind : String)
  | expectedList (kind : String)
  | notShaped (location : Location)

def ResultError.message : ResultError → String
  | .missingColumn a columns =>
    "row has no column `" ++ a ++ "`; got " ++ Quoted.quoteAll columns
  | .notAList l kind => "`" ++ l.text ++ "` is paginated and expects a list; got " ++ kind
  | .expectedList kind => "expected a list, got " ++ kind
  | .notShaped l => "`" ++ l.text ++ "` was not shaped before execution"

def ResultError.toError (e : ResultError) : Error := .invalidResult e.message

def Value.toList (v : Value) : Except ResultError (List Value) :=
  match v.list? with
  | some items => .ok items
  | none => .error (.expectedList v.kindName)

namespace Hydration

abbrev Identity := List (Option Key)

def cell (r : Row) (label : String) : Except ResultError Value :=
  match r.get? label with
  | some v => .ok v
  | none => .error (.missingColumn label r.columns)

def identity (labels : List String) (r : Row) : Except ResultError Identity :=
  labels.mapM (fun a => (cell r a).map Value.key?)

/-- Not null in all of its identity. -/
def isMatched (k : Identity) : Bool := !k.all Option.isNone

/-- The rows by their identities, without those that found no match. -/
def groupRows (labels : List String) (rows : List Row) :
    Except ResultError (Grouping Identity Row) := do
  let identified ← rows.mapM (fun r => (identity labels r).map (fun k => (k, r)))
  return Grouping.ofPairs (identified.filter (fun p => isMatched p.1))

mutual

def objects : Shape → List Row → Except ResultError (List Value)
  | .mk fields, rows => do
    let groups ← groupRows (Shape.identityOf fields) rows
    groups.mapM (fun g => return .object (Fields.ofPairs (← objectFields fields g.2)))

/-- The fields of the object that the rows stand for, each column read from the first row. -/
def objectFields : List (String × ShapeField) → List Row →
    Except ResultError (List (String × Value))
  | [], _ => return []
  | (name, f) :: r, rows => do
    let v ← fieldValue f rows
    return (name, v) :: (← objectFields r rows)

def fieldValue : ShapeField → List Row → Except ResultError Value
  | .column label _, rows => match rows with
    | [] => return .null
    | first :: _ => cell first label
  | .nested shape many, rows => do
    let items ← objects shape rows
    return if many then .list items else items.headD .null

end

end Hydration

end TreeQuery
