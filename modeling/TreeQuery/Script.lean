import TreeQuery.Session

/-!
A database that answers from a script. A statement gets the first reply whose text occurs in its
SQL, and no rows if there is none.
-/

namespace TreeQuery

structure Reply where
  contains : String
  /-- Serves a single statement. -/
  once : Bool
  rows : List Row
  failure : Option Error
  /-- The row during whose reading the run is cancelled, if rows are delivered one by one. -/
  cancel : Option Nat
  lazy : Bool
  hang : Bool

namespace Reply

def occursIn (part : List Char) : List Char → Bool
  | [] => part.isEmpty
  | c :: cs => part.isPrefixOf (c :: cs) || occursIn part cs

def suits (q : Sql.Query) (r : Reply) : Bool := occursIn r.contains.toList q.sql.toList

def items (r : Reply) : List (Except Error Row) :=
  r.rows.map .ok ++ r.failure.toList.map .error

/-- Items with a mark on the one at a position. -/
def deliver (cancel : Option Nat) : Nat → List (Except Error Row) → List Delivery
  | _, [] => []
  | i, row :: r => ⟨row, cancel = some i⟩ :: deliver cancel (i + 1) r

def answer (r : Reply) : Answer :=
  if r.hang then .hung
  else if r.lazy then .rows false (deliver r.cancel 0 r.items)
  else match r.failure with
    | some e => .failed e r.cancel.isSome
    | none => .rows r.cancel.isSome (deliver none 0 (r.rows.map .ok))

/-- The first reply that suits, and the script without it if it serves only once. -/
def choose (q : Sql.Query) : List Reply → Option Reply × List Reply
  | [] => (none, [])
  | r :: rest =>
    if r.suits q then (some r, if r.once then rest else r :: rest)
    else
      let (found, rest) := choose q rest
      (found, r :: rest)

end Reply

def Driver.scripted : Driver (List Reply) where
  answer q script := match Reply.choose q script with
    | (some r, script) => (r.answer, script)
    | (none, script) => (.rows false [], script)

end TreeQuery
