import TreeQuery.Cursor
import TreeQuery.Plan.Basic

/-!
Which page a paginated table asks for. A sort key pages by keyset, forward or backward; an order
alone pages by offset, forward only.
-/

namespace TreeQuery.Plan

inductive PagingError where
  | noOrder (location : Location)
  | firstWithLast (location : Location)
  | beforeWithFirst (location : Location)
  | afterWithLast (location : Location)
  | afterWithBefore (location : Location)
  | backwardOffset (location : Location)
  | argument (e : ArgumentError)
  | notAString (argument : String) (kind : String)
  | cursor (location : Location) (e : CursorError)
  | pastRange (cursor : String)

namespace PagingError

def refused (location : Location) (why : String) : Error :=
  .invalidConfiguration ("`" ++ location.text ++ "`: " ++ why)

def toError : PagingError → Error
  | .noOrder l => .invalidConfiguration
      ("`" ++ l.text ++ "` is paginated but has neither an order nor a sort key")
  | .firstWithLast l => refused l "using `first` with `last` is not supported"
  | .beforeWithFirst l => refused l "using `before` with `first` is not supported"
  | .afterWithLast l => refused l "using `after` with `last` is not supported"
  | .afterWithBefore l => refused l "using `after` with `before` is not supported"
  | .backwardOffset l => refused l
      "backward pagination is not supported with offsets; declare a sort key instead"
  | .argument e => e.toError
  | .notAString n kind => .invalidCursor ("`" ++ n ++ "` must be a string; got " ++ kind)
  | .cursor l e => e.toError.context (.note ("cannot page `" ++ l.text ++ "`"))
  | .pastRange c => .invalidCursor ("`" ++ c ++ "` is out of range")

end PagingError

structure OffsetPage where
  order : OrderBy
  /-- The label of the table that the order applies to. -/
  table : String
  first : Option Nat
  offset : Nat

structure KeysetPage where
  key : SortKey
  /-- The label of the table that the key applies to. -/
  table : String
  count : Option Nat
  backward : Bool
  /-- One value for each column of the key. -/
  cursor : Option (List Value)

inductive Paging where
  | offset (p : OffsetPage)
  | keyset (p : KeysetPage)

namespace Paging

def isOffset : Paging → Bool
  | .offset _ => true
  | .keyset _ => false

def isBackward : Paging → Bool
  | .offset _ => false
  | .keyset p => p.backward

/-- One row more than asked for shows whether there is a further page. -/
def limit : Paging → Option Nat
  | .offset p => p.first.map (· + 1)
  | .keyset p => p.count.map (· + 1)

end Paging

/-- A backward page reads every column of the key the other way. -/
def KeysetPage.direction (p : KeysetPage) (c : SortColumn) : Direction :=
  if p.backward then c.direction.flip else c.direction

namespace Table

def count? (t : Table) (name : String) : Except PagingError (Option Nat) :=
  (t.arguments.count? name).mapError .argument

def cursor? (t : Table) (name : String) : Except PagingError (Option String) :=
  match t.arguments.get? name with
  | none => .ok none
  | some (.text s) => .ok (some s)
  | some v => .error (.notAString name v.kindName)

/-- The count, the side, and the cursor of a keyset page, from `first`, `last`, `after` and
`before`. -/
def keysetBounds (l : Location) : Option Nat → Option Nat → Option String → Option String →
    Except PagingError (Option Nat × Bool × Option String)
  | some _, some _, _, _ => .error (.firstWithLast l)
  | some _, none, _, some _ => .error (.beforeWithFirst l)
  | none, some _, some _, _ => .error (.afterWithLast l)
  | some n, none, after, none => .ok (some n, false, after)
  | none, some n, none, before => .ok (some n, true, before)
  | none, none, some _, some _ => .error (.afterWithBefore l)
  | none, none, none, some before => .ok (none, true, some before)
  | none, none, after, none => .ok (none, false, after)

def keysetPage (t : Table) (key : SortKey) (label : String) : Except PagingError KeysetPage := do
  let first ← t.count? "first"
  let last ← t.count? "last"
  let after ← t.cursor? "after"
  let before ← t.cursor? "before"
  let (count, backward, cursor) ← keysetBounds t.location first last after before
  match cursor with
  | none => return ⟨key, label, count, backward, none⟩
  | some c =>
    let values ← (Cursor.toKeyset c key).mapError (.cursor t.location)
    return ⟨key, label, count, backward, some values⟩

def offsetPage (t : Table) (order : OrderBy) (label : String) :
    Except PagingError OffsetPage := do
  if t.arguments.contains "last" || t.arguments.contains "before" then
    throw (.backwardOffset t.location)
  let first ← t.count? "first"
  match ← t.cursor? "after" with
  | none => return ⟨order, label, first, 0⟩
  | some c =>
    let n ← (Cursor.toOffset c).mapError (.cursor t.location)
    if Numeral.fitsInt64 (n + 1) then return ⟨order, label, first, n + 1⟩
    else throw (.pastRange c)

def paging (t : Table) : Except PagingError Paging :=
  match t.keyset?, t.offsetOrder? with
  | some (key, label), _ => (t.keysetPage key label).map .keyset
  | none, some (order, label) => (t.offsetPage order label).map .offset
  | none, none => .error (.noOrder t.location)

end Table

end TreeQuery.Plan
