import TreeQuery.Plan.Paging
import TreeQuery.Sql.Token

/-!
Why a plan has no statement.
-/

namespace TreeQuery.Sql

inductive SqlError where
  | notATable (location : Location)
  | emptyScope (location : Location)
  | noScope (location : Location)
  | orphanColumn (location : Location)
  | outOfScope (role : Role)
  | rootJoin (location : Location)
  | rootJunction (location : Location)
  | noRelation (location : Location)
  | noBatchJoin (location : Location)
  | noParentJoin (location : Location)
  | noChildJoin (location : Location)
  | noLateral (location : Location) (flavor : Flavor)
  | noWindow (location : Location) (flavor : Flavor)
  | paging (e : Plan.PagingError)

def roleName : Role → String
  | .this => "table"
  | .parent => "parent"
  | .child => "child"

namespace SqlError

def about (l : Location) (why : String) : Error :=
  .invalidConfiguration ("`" ++ l.text ++ "` " ++ why)

def junctionOf (l : Location) (why : String) : Error :=
  .invalidConfiguration ("junction of `" ++ l.text ++ "` has no join " ++ why)

def toError : SqlError → Error
  | .notATable l => about l "is not backed by a table"
  | .emptyScope l => (ArgumentError.emptyScope l.text).toError
  | .noScope l => about l "is a batch and must be compiled with a batch scope"
  | .orphanColumn l => about l "is a column without a table"
  | .outOfScope r => .invalidConfiguration
      ("clause refers to the " ++ roleName r ++ " table, which is not in scope")
  | .rootJoin l => about l "is a root field and cannot declare a join"
  | .rootJunction l => about l "is a root field and cannot use a junction table"
  | .noRelation l => about l "must declare a join, a batch or a junction to be nested"
  | .noBatchJoin l => .invalidConfiguration
      ("junction batch of `" ++ l.text ++ "` has no join to the child table")
  | .noParentJoin l => junctionOf l "from the parent table"
  | .noChildJoin l => junctionOf l "to the child table"
  | .noLateral l fl => .unsupportedFeature
      ("paginating `" ++ l.text ++ "` requires a LATERAL join, which " ++ fl.name ++
        " does not support")
  | .noWindow l fl => .unsupportedFeature
      ("offset pagination of `" ++ l.text ++ "` requires window functions, which " ++ fl.name ++
        " does not support")
  | .paging e => e.toError

end SqlError

/-- Values are bound to parameters in the order in which they are written. -/
abbrev Binder := StateT Params (Except SqlError)

def bindValue (v : Value) : Binder Token :=
  modifyGet (fun ps => let (n, ps) := ps.push v; (.param n v, ps))

def bindValues : List Value → Binder (List Token)
  | [] => return []
  | v :: r => do
    let t ← bindValue v
    return t :: (← bindValues r)

end TreeQuery.Sql
