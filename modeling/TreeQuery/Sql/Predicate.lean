import TreeQuery.Sql.Raw

/-!
Clause lists as boolean expressions. A list with an `OR` in it is put in parentheses, so that the
predicate can stand beside others under `AND`.
-/

namespace TreeQuery.Sql

def columnToken (a : Labels) (c : ColumnRef) : Binder Token :=
  return .column (← a.resolve c.role) c.column

def Connective.token : Connective → Token
  | .and => .and
  | .or => .or

def comparison (column : Token) (op : CompareOp) (value : Value) : Binder Fragment :=
  match op, value with
  | .eq, .null => return [column, .sql " IS NULL"]
  | .ne, .null => return [column, .sql " IS NOT NULL"]
  | _, _ => return [column, .sql (" " ++ op.sql ++ " "), ← bindValue value]

/-- `column IN (…)` for a list that is not empty. -/
def membership (column : Token) (values : List Value) : Binder Fragment := do
  let params ← bindValues values
  return column :: .sql " IN (" :: commaSeparated (params.map (fun t => [t])) ++ [.sql ")"]

mutual

def condition (a : Labels) : Condition → Binder Fragment
  | .compare c op v => do comparison (← columnToken a c) op v
  | .compareColumns l op r => do
    let left ← columnToken a l
    let right ← columnToken a r
    return [left, .sql (" " ++ op.sql ++ " "), right]
  | .within c values =>
    if values.isEmpty then return [.sql "1 = 0"]
    else do membership (← columnToken a c) values
  | .raw sql params => raw a sql params
  | .group clauses =>
    if clauses.isEmpty then return [.lparen, .sql "TRUE", .rparen]
    else return .lparen :: (← clauseTokens a true clauses) ++ [.rparen]
  | .exists sql params => return .sql "EXISTS (" :: (← raw a sql params) ++ [.sql ")"]

/-- The first clause's connective has nothing to connect. -/
def clauseTokens (a : Labels) : (first : Bool) → List Clause → Binder Fragment
  | _, [] => return []
  | first, .mk connective negated c :: r => do
    let lead := if first then [] else [Connective.token connective]
    let body ← condition a c
    let body := if negated then .not :: .lparen :: body ++ [.rparen] else body
    return lead ++ body ++ (← clauseTokens a false r)

end

def hasAlternatives (clauses : List Clause) : Bool :=
  clauses.tail.any (fun c => c.connective = .or)

def predicate (a : Labels) (clauses : List Clause) : Binder Fragment := do
  if clauses.isEmpty then return [.sql "TRUE"]
  let tokens ← clauseTokens a true clauses
  return if hasAlternatives clauses then .lparen :: tokens ++ [.rparen] else tokens

/-- Nothing to add for an empty list. -/
def filter (a : Labels) (clauses : List Clause) : Binder (List Fragment) := do
  if clauses.isEmpty then return []
  return [← predicate a clauses]

end TreeQuery.Sql
