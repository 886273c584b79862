import TreeQuery.Row
import TreeQuery.Sql.Statement

/-!
A run against a database that answers statements one after another. A run can be cancelled from
outside while a statement is answered, and is stopped before it reads on.
-/

namespace TreeQuery

/-- What one read delivers. -/
structure Delivery where
  row : Except Error Row
  /-- The run is cancelled while this is read. -/
  cancels : Bool

inductive Answer where
  | failed (e : Error) (cancels : Bool)
  /-- The run is cancelled and the answer never comes. -/
  | hung
  | rows (cancels : Bool) (deliveries : List Delivery)

/-- A database whose answers depend on what it was asked before. -/
structure Driver (σ : Type) where
  answer : Sql.Query → σ → Answer × σ

structure Session (σ : Type) where
  driver : σ
  cancelled : Bool
  /-- The statements that reached the database, in order. -/
  issued : List Sql.Query

/-- Why a run ends without a value. -/
inductive Stop (ε : Type) where
  | failed (e : ε)
  /-- Waiting for an answer that never comes. -/
  | hung

abbrev Run (σ ε α : Type) := Session σ → Except (Stop ε) α × Session σ

namespace Run

variable {σ ε α β : Type}

instance : Monad (Run σ ε) where
  pure a := fun s => (.ok a, s)
  bind x f := fun s => match x s with
    | (.ok a, s) => f a s
    | (.error e, s) => (.error e, s)

def fail (e : ε) : Run σ ε α := fun s => (.error (.failed e), s)

def hang : Run σ ε α := fun s => (.error .hung, s)

def ofExcept (f : ε → β) : Except ε α → Run σ β α
  | .ok a => pure a
  | .error e => fail (f e)

def get : Run σ ε (Session σ) := fun s => (.ok s, s)

def modify (f : Session σ → Session σ) : Run σ ε Unit := fun s => (.ok (), f s)

def cancelIf (b : Bool) : Run σ ε Unit :=
  modify (fun s => { s with cancelled := s.cancelled || b })

/-- How runs that stand beside each other are waited for. -/
inductive Waiting where
  /-- While one of them hangs, the failure of another is heard of. -/
  | together
  /-- Each is heard of only after those before it. -/
  | inTurn
  deriving DecidableEq

/-- More runs than these are waited for in turn. -/
def maxTogether : Nat := 30

def Waiting.ofCount (n : Nat) : Waiting := if n ≤ maxTogether then .together else .inTurn

/-- Goes on with what stands beside a run. Beside a run that hangs, only a failure counts, so it is
taken with `a` in place of the value. -/
def beside (w : Waiting) (x : Run σ ε α) (a : α) (f : α → Run σ ε β) : Run σ ε β := fun s =>
  match x s with
  | (.ok v, s) => f v s
  | (.error (.failed e), s) => (.error (.failed e), s)
  | (.error .hung, s) => match w with
    | .inTurn => (.error .hung, s)
    | .together => match f a s with
      | (.error e, s) => (.error e, s)
      | (.ok _, s) => (.error .hung, s)

end Run

namespace Session

variable {σ ε : Type}

def checkCancelled (wrap : Error → ε) : Run σ ε Unit := do
  if (← Run.get).cancelled then Run.fail (wrap .cancelled)

/-- Reads all rows, asking before each read whether to go on. -/
def readAll (wrap : Error → ε) : List Delivery → Run σ ε (List Row)
  | [] => do
    checkCancelled wrap
    return []
  | d :: r => do
    checkCancelled wrap
    Run.cancelIf d.cancels
    let row ← Run.ofExcept wrap d.row
    return row :: (← readAll wrap r)

def ask (d : Driver σ) (q : Sql.Query) : Run σ ε Answer := fun s =>
  let (a, next) := d.answer q s.driver
  (.ok a, { s with driver := next, issued := s.issued ++ [q] })

/-- The rows of an answer, which may cancel the run before they are read. -/
def receive (wrap : Error → ε) : Answer → Run σ ε (List Row)
  | .failed e cancels => do
    Run.cancelIf cancels
    Run.fail (wrap e)
  | .hung => do
    Run.cancelIf true
    Run.hang
  | .rows cancels deliveries => do
    Run.cancelIf cancels
    readAll wrap deliveries

/-- The rows of a statement. A run that is cancelled before does not issue it. -/
def query (d : Driver σ) (wrap : Error → ε) (q : Sql.Query) : Run σ ε (List Row) := do
  checkCancelled wrap
  receive wrap (← ask d q)

end Session

end TreeQuery
