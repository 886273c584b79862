import TreeQuery.Value.Basic

/-!
Correlation keys: what a cell is compared by when children are handed to their parents. Numbers
without a fraction share one form however they were written.
-/

namespace TreeQuery

inductive Key where
  | bool (b : Bool)
  | int (i : Int64)
  | double (bits : UInt64)
  | text (s : String)
  deriving DecidableEq

namespace Key

def ofDouble (x : Double) : Key := if x.isIntegral then .int x.toInt64 else .double x.bits

def ofJson? : Json → Option Key
  | .bool b => some (.bool b)
  | .number n => some (match n.int64? with
    | some i => .int i
    | none => ofDouble n.toDouble)
  | .string s => some (.text s)
  | _ => none

def toValue : Key → Value
  | .bool b => .bool b
  | .int i => .int i
  | .double bits => .double ⟨bits⟩
  | .text s => .text s

def rank : Key → Nat
  | .bool _ => 0
  | .int _ => 1
  | .double _ => 2
  | .text _ => 3

/-- Truth values come first, then integers, other numbers by their bits, and texts. -/
def le : Key → Key → Bool
  | .bool a, .bool b => !a || b
  | .int a, .int b => a.toInt ≤ b.toInt
  | .double a, .double b => a ≤ b
  | .text a, .text b => !(b < a)
  | a, b => a.rank ≤ b.rank

def dropRepeats : List Key → List Key
  | a :: b :: r => if a = b then dropRepeats (b :: r) else a :: dropRepeats (b :: r)
  | ks => ks

/-- Rising, each key once. -/
def sorted (ks : List Key) : List Key := dropRepeats (ks.mergeSort le)

end Key

namespace Value

/-- The key of a single cell; a null and a container have none. -/
def key? : Value → Option Key
  | .bool b => some (.bool b)
  | .int i => some (.int i)
  | .double x => some (Key.ofDouble x)
  | .text s => some (.text s)
  | .json j => Key.ofJson? j
  | _ => none

/-- The keys of a cell that may hold a list of them. -/
def keys (v : Value) : List Key :=
  match v.normalize with
  | .list items => items.filterMap key?
  | w => w.key?.toList

end Value

end TreeQuery
