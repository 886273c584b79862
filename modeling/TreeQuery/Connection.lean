import TreeQuery.Hydration
import TreeQuery.Plan.OfSelection
import TreeQuery.Plan.Paging

/-!
Pages as connections: the rows of a page with a cursor for each, and whether there are more rows
on either side. A row beyond the count only shows that there are more, and is dropped.
-/

namespace TreeQuery

inductive ConnectionError where
  | paging (e : Plan.PagingError)
  | result (e : ResultError)

def ConnectionError.toError : ConnectionError → Error
  | .paging e => e.toError
  | .result e => e.toError

namespace Connection

open Plan (KeysetPage Node OffsetPage Table)

def ofEdges (edges : List (String × Value)) (next previous : Bool) (total : Option Int64) :
    Value :=
  .connection edges ⟨next, previous, edges.head?.map Prod.fst, edges.getLast?.map Prod.fst⟩ total

def withoutTotal : Value → Value
  | .object fields => .object (Fields.erase fields Plan.totalColumn)
  | v => v

/-- The count of all rows, as the first row has it. -/
def total (items : List Value) : Int64 :=
  ((items.head?.bind (fun v => v.field? Plan.totalColumn)).bind Value.int?).getD 0

/-- Edges numbered from the page's offset. -/
def numbered (offset : Nat) : List Value → List (String × Value)
  | [] => []
  | v :: r => (Cursor.ofOffset offset, v) :: numbered (offset + 1) r

def ofOffset (p : OffsetPage) (items : List Value) : Value :=
  let count := total items
  let nodes := items.map withoutTotal
  let nodes := match p.first with
    | some n => nodes.take n
    | none => nodes
  let seen : Int := (p.offset + nodes.length : Nat)
  ofEdges (numbered p.offset nodes) (seen < count.toInt) (0 < p.offset) (some count)

/-- The values of the sort key in one node. -/
def keyFields (key : SortKey) (node : Value) : Fields Value :=
  Fields.ofPairs (key.map (fun c => (c.name, (node.field? c.name).getD .null)))

def ofKeyset (p : KeysetPage) (items : List Value) : Value :=
  let more := p.count.any (fun n => n < items.length)
  let nodes := match p.count with
    | some n => items.take n
    | none => items
  let nodes := if p.backward then nodes.reverse else nodes
  let edges := nodes.map (fun v => (Cursor.ofFields (keyFields p.key v), v))
  ofEdges edges (more && !p.backward) (more && p.backward) none

def ofItems (t : Table) (items : List Value) : Except ConnectionError Value := do
  match ← t.paging.mapError .paging with
  | .offset p => return ofOffset p items
  | .keyset p => return ofKeyset p items

mutual

/-- The value of a table with every page in it made a connection. What batches fetch is not there
yet. -/
def convert : Node → Value → Except ConnectionError Value
  | .table t children, v => match v with
    | .null => return if t.paginate then Value.emptyConnection else .null
    | .list items => do
      let items ← items.mapM (convertChildren children)
      if t.paginate then ofItems t items else return .list items
    | .object fields => convertChildren children (.object fields)
    | v => if t.paginate then throw (.result (.notAList t.location v.kindName)) else return v
  | _, v => return v

/-- Converts the joined tables below one object. -/
def convertChildren : List Node → Value → Except ConnectionError Value
  | .table t children :: r, v =>
    if t.isBatch then convertChildren r v
    else match v with
      | .object fields => match Fields.get? fields t.fieldName with
        | some w => do
          let w ← convert (.table t children) w
          convertChildren r (.object (Fields.insert fields t.fieldName w))
        | none => convertChildren r v
      | v => return v
  | _ :: r, v => convertChildren r v
  | [], v => return v

end

end Connection

end TreeQuery
