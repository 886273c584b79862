import TreeQuery.Text.Blank
import TreeQuery.Value.Basic

/-!
Conditions on rows. They name tables by role, so the same clause serves under any label.
-/

namespace TreeQuery

/-- The table that holds a clause, or the two sides of a join. -/
inductive Role where
  | this
  | parent
  | child
  deriving DecidableEq

structure ColumnRef where
  role : Role
  column : String
  deriving DecidableEq

inductive CompareOp where
  | eq
  | ne
  | gt
  | ge
  | lt
  | le
  | like
  deriving DecidableEq

inductive Connective where
  | and
  | or
  deriving DecidableEq

mutual

inductive Condition where
  /-- Equality with null asks whether the column is null. -/
  | compare (column : ColumnRef) (op : CompareOp) (value : Value)
  | compareColumns (lhs : ColumnRef) (op : CompareOp) (rhs : ColumnRef)
  /-- An empty list is never matched. -/
  | within (column : ColumnRef) (values : List Value)
  /-- SQL in which a role between braces stands for its label and `@name` for a parameter. -/
  | raw (sql : String) (params : List (String × Value))
  | group (clauses : List Clause)
  | exists (sql : String) (params : List (String × Value))

/-- A condition, and how it combines with the one before it. -/
inductive Clause where
  | mk (connective : Connective) (negated : Bool) (condition : Condition)

end

namespace Clause

def connective : Clause → Connective
  | .mk c _ _ => c

def negated : Clause → Bool
  | .mk _ n _ => n

def condition : Clause → Condition
  | .mk _ _ c => c

end Clause

mutual

/-- Contributes nothing: blank SQL, or a group of such conditions. -/
def Condition.isEmpty : Condition → Bool
  | .raw sql _ => isBlank sql
  | .group clauses => clausesEmpty clauses
  | _ => false

def clausesEmpty : List Clause → Bool
  | [] => true
  | .mk _ _ c :: r => c.isEmpty && clausesEmpty r

end

def CompareOp.sql : CompareOp → String
  | .eq => "="
  | .ne => "<>"
  | .gt => ">"
  | .ge => ">="
  | .lt => "<"
  | .le => "<="
  | .like => "LIKE"

end TreeQuery
