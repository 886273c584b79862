import TreeQuery.Double.Decimal
import TreeQuery.Fields
import TreeQuery.Text.Numeral

/-!
JSON documents. A number keeps which kind of literal it came from, so `1` and `1.0` differ. The
members of a parsed object are sorted by name, the last of a repeated name winning.
-/

namespace TreeQuery

namespace Json

/-- A negative number is never stored as `natural`, nor a natural one as `negative`. -/
inductive Number where
  | natural (n : UInt64)
  | negative (i : Int64)
  | double (x : Double)

def Number.ofInt64 (i : Int64) : Number :=
  if i.toInt < 0 then .negative i else .natural (UInt64.ofNat i.toInt.toNat)

/-- The number, if it is an integer literal within 64 signed bits. -/
def Number.int64? : Number → Option Int64
  | .natural n => if Numeral.fitsInt64 n.toNat then some (Int64.ofInt n.toNat) else none
  | .negative i => some i
  | .double _ => none

def Number.toDouble : Number → Double
  | .natural n => Double.ofInt n.toNat
  | .negative i => Double.ofInt64 i
  | .double x => x

def Number.same : Number → Number → Bool
  | .natural m, .natural n => m == n
  | .negative i, .negative j => i == j
  | .double x, .double y => x.numEq y
  | _, _ => false

end Json

inductive Json where
  | null
  | bool (b : Bool)
  | number (n : Json.Number)
  | string (s : String)
  | array (items : List Json)
  | object (members : List (String × Json))

namespace Json

/-- Writes into members that are sorted by name. -/
def insertSorted : List (String × Json) → String → Json → List (String × Json)
  | [], n, v => [(n, v)]
  | (m, w) :: r, n, v =>
    if n < m then (n, v) :: (m, w) :: r
    else if n = m then (n, v) :: r
    else (m, w) :: insertSorted r n v

def ofMembers (ms : List (String × Json)) : Json :=
  .object (ms.foldl (fun acc m => insertSorted acc m.1 m.2) [])

mutual

def same : Json → Json → Bool
  | .null, .null => true
  | .bool a, .bool b => a == b
  | .number a, .number b => a.same b
  | .string a, .string b => a == b
  | .array a, .array b => sameItems a b
  | .object a, .object b => sameMembers a b
  | _, _ => false

def sameItems : List Json → List Json → Bool
  | [], [] => true
  | a :: as, b :: bs => same a b && sameItems as bs
  | _, _ => false

def sameMembers : List (String × Json) → List (String × Json) → Bool
  | [], [] => true
  | (m, a) :: as, (n, b) :: bs => m == n && same a b && sameMembers as bs
  | _, _ => false

end

end Json

end TreeQuery
