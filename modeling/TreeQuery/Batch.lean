import TreeQuery.Grouping
import TreeQuery.Plan.Basic
import TreeQuery.Value.Key

/-!
Batches: the keys that many parents need, the children found for them, and handing each parent
its own. A parent whose key is a list has the children of all keys in it.
-/

namespace TreeQuery

namespace Value

mutual

/-- The objects in a value, looking through lists and connections. -/
def objects : Value → List (Fields Value)
  | .object fields => [fields]
  | .list items => itemObjects items
  | .connection edges _ _ => nodeObjects edges
  | _ => []

def itemObjects : List Value → List (Fields Value)
  | [] => []
  | v :: r => objects v ++ itemObjects r

def nodeObjects : List (String × Value) → List (Fields Value)
  | [] => []
  | (_, v) :: r => objects v ++ nodeObjects r

end

mutual

/-- Puts other objects in the place of a value's objects, in order, and returns those that are
left over. -/
def refill : Value → List (Fields Value) → Value × List (Fields Value)
  | .object _, o :: os => (.object o, os)
  | .object fields, [] => (.object fields, [])
  | .list items, os =>
    let (items, os) := refillItems items os
    (.list items, os)
  | .connection edges info total, os =>
    let (edges, os) := refillNodes edges os
    (.connection edges info total, os)
  | v, os => (v, os)

def refillItems : List Value → List (Fields Value) → List Value × List (Fields Value)
  | [], os => ([], os)
  | v :: r, os =>
    let (v, os) := refill v os
    let (r, os) := refillItems r os
    (v :: r, os)

def refillNodes : List (String × Value) → List (Fields Value) →
    List (String × Value) × List (Fields Value)
  | [], os => ([], os)
  | (c, v) :: r, os =>
    let (v, os) := refill v os
    let (r, os) := refillNodes r os
    ((c, v) :: r, os)

end

end Value

/-- The children of each key: a list of them, or one page. -/
abbrev Groups := List (Key × Value)

namespace Groups

def get? : Groups → Key → Option Value
  | [], _ => none
  | (l, v) :: r, k => if l = k then some v else get? r k

/-- The key of a child under the name of its column. -/
def itemKey? (keyField : String) (v : Value) : Option Key :=
  ((v.field? keyField).map Value.normalize).bind Value.key?

/-- The children by their keys, in order of first appearance. A child without a key is dropped. -/
def ofItems (keyField : String) (items : List Value) : Grouping Key Value :=
  Grouping.ofPairs (items.filterMap (fun v => (itemKey? keyField v).map (fun k => (k, v))))

end Groups

namespace Batch

open Plan (Table)

def parentKeys (t : Table) (object : Fields Value) : List Key :=
  match t.batchKeys? with
  | some keys => ((Fields.get? object keys.parentKey.fieldName).map Value.keys).getD []
  | none => []

/-- The keys that the parents need, each once. -/
def scope (t : Table) (objects : List (Fields Value)) : List Key :=
  (objects.flatMap (parentKeys t)).eraseDups

/-- What the field of a batch holds for one parent. -/
def attach (t : Table) (groups : Option Groups) (object : Fields Value) : Value :=
  let found := match groups with
    | some gs => (parentKeys t object).filterMap gs.get?
    | none => []
  if !t.many then ((found.head?.bind Value.list?).bind List.head?).getD .null
  else match found with
    | [] => if t.paginate then Value.emptyConnection else .null
    | [v] => v
    | v :: _ =>
      if t.paginate then v else .list (found.flatMap (fun g => g.list?.getD []))

def attachAll : List (Table × Option Groups) → List (Fields Value) → List (Fields Value)
  | [], objects => objects
  | (t, groups) :: r, objects =>
    attachAll r (objects.map (fun o => Fields.insert o t.fieldName (attach t groups o)))

end Batch

end TreeQuery
