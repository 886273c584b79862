import TreeQuery.Double.Decimal
import TreeQuery.Fields
import TreeQuery.Json.Basic
import TreeQuery.Text.Numeral

/-!
The values that cells, arguments and responses hold. Object fields keep their order, and JSON is
carried along unread until `normalize` opens it.
-/

namespace TreeQuery

structure PageInfo where
  hasNextPage : Bool
  hasPreviousPage : Bool
  startCursor : Option String
  endCursor : Option String
  deriving DecidableEq

inductive Value where
  | null
  | bool (b : Bool)
  | int (i : Int64)
  | double (x : Double)
  | text (s : String)
  | json (j : Json)
  | list (items : List Value)
  | object (fields : List (String × Value))
  /-- A page: each edge is a cursor and its node. -/
  | connection (edges : List (String × Value)) (info : PageInfo) (total : Option Int64)

instance : Inhabited Value := ⟨.null⟩

namespace Value

def kindName : Value → String
  | .null => "Null"
  | .bool _ => "Bool"
  | .int _ => "I64"
  | .double _ => "F64"
  | .text _ => "String"
  | .json _ => "Json"
  | .list _ => "List"
  | .object _ => "Object"
  | .connection .. => "Connection"

def isNull : Value → Bool
  | .null => true
  | _ => false

def text? : Value → Option String
  | .text s => some s
  | _ => none

def list? : Value → Option (List Value)
  | .list items => some items
  | _ => none

def object? : Value → Option (Fields Value)
  | .object fields => some fields
  | _ => none

/-- A field of an object. -/
def field? (v : Value) (name : String) : Option Value :=
  v.object?.bind (fun fields => Fields.get? fields name)

/-- An integer read out of a number, a numeral or a JSON integer. A double is held at the ends
of the range. -/
def int? : Value → Option Int64
  | .int i => some i
  | .double x => if x.isIntegral then some x.toInt64 else none
  | .text s => Numeral.int64? s
  | .json (.number n) => n.int64?
  | _ => none

def emptyConnection : Value := .connection [] ⟨false, false, none, none⟩ none

mutual

def ofJson : Json → Value
  | .null => .null
  | .bool b => .bool b
  | .number n => match n.int64? with
    | some i => .int i
    | none => .double n.toDouble
  | .string s => .text s
  | .array items => .list (ofJsonItems items)
  | .object members => .object (ofJsonMembers members)

def ofJsonItems : List Json → List Value
  | [] => []
  | j :: r => ofJson j :: ofJsonItems r

def ofJsonMembers : List (String × Json) → List (String × Value)
  | [] => []
  | (n, j) :: r => (n, ofJson j) :: ofJsonMembers r

end

/-- A double without a fraction is an integer if 64 signed bits hold it. -/
def ofDouble (x : Double) : Value :=
  if x.isIntegral && x.isBelowInt64 then .int x.toInt64 else .double x

mutual

/-- A JSON document with its numbers settled, through arrays but not into objects. -/
def normalizeJson : Json → Value
  | .number n => match n.int64? with
    | some i => .int i
    | none => ofDouble n.toDouble
  | .array items => .list (normalizeJsonItems items)
  | j => ofJson j

def normalizeJsonItems : List Json → List Value
  | [] => []
  | j :: r => normalizeJson j :: normalizeJsonItems r

end

mutual

/-- Opens JSON and settles numbers, through lists but not into objects. -/
def normalize : Value → Value
  | .json j => normalizeJson j
  | .double x => ofDouble x
  | .list items => .list (normalizeItems items)
  | v => v

def normalizeItems : List Value → List Value
  | [] => []
  | v :: r => normalize v :: normalizeItems r

end

mutual

/-- Equality of values. The order of fields does not count, and a NaN is equal to nothing. -/
def same : Value → Value → Bool
  | .null, .null => true
  | .bool a, .bool b => a == b
  | .int a, .int b => a == b
  | .double a, .double b => a.numEq b
  | .text a, .text b => a == b
  | .json a, .json b => a.same b
  | .list a, .list b => sameItems a b
  | .object a, .object b => a.length == b.length && sameFields a b
  | .connection a i s, .connection b j t => sameEdges a b && i == j && s == t
  | _, _ => false
termination_by structural v => v

def sameItems : List Value → List Value → Bool
  | [], [] => true
  | v :: r, w :: s => same v w && sameItems r s
  | _, _ => false
termination_by structural v => v

def sameFields : List (String × Value) → List (String × Value) → Bool
  | [], _ => true
  | (n, v) :: r, fs =>
    (match Fields.get? fs n with
      | some w => same v w
      | none => false) && sameFields r fs
termination_by structural v => v

def sameEdges : List (String × Value) → List (String × Value) → Bool
  | [], [] => true
  | (c, v) :: r, (d, w) :: s => c == d && same v w && sameEdges r s
  | _, _ => false
termination_by structural v => v

end

/-- Numbers may as well be settled after the document is opened. -/
theorem normalizeJson_eq (j : Json) : normalizeJson j = normalize (ofJson j) := by
  refine Json.rec (motive_1 := fun j => normalizeJson j = normalize (ofJson j))
    (motive_2 := fun js => normalizeJsonItems js = normalizeItems (ofJsonItems js))
    (motive_3 := fun _ => True) (motive_4 := fun _ => True)
    ?_ ?_ ?_ ?_ ?_ ?_ ?_ ?_ ?_ ?_ ?_ j
  · rfl
  · intro _; rfl
  · intro n
    simp only [normalizeJson, ofJson]
    cases n.int64? <;> rfl
  · intro _; rfl
  · intro items ih
    simp only [normalizeJson, ofJson, normalize, ih]
  · intro _ _; rfl
  · rfl
  · intro j js hj hjs
    simp only [normalizeJsonItems, ofJsonItems, normalizeItems, hj, hjs]
  · trivial
  · intros; trivial
  · intros; trivial

end Value

end TreeQuery
