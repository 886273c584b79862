import TreeQuery.Params
import TreeQuery.Schema.Basic
import TreeQuery.Text.Identifier
import TreeQuery.Text.Segments

/-!
SQL as tokens: what decides how a condition is grouped, which table a column belongs to and which
value a placeholder stands for can be read off without scanning text.
-/

namespace TreeQuery.Sql

inductive Flavor where
  | postgresql
  /-- Without lateral joins and window functions. -/
  | sqlite
  deriving DecidableEq

def Flavor.name : Flavor → String
  | .postgresql => "Postgresql"
  | .sqlite => "Sqlite"

inductive Token where
  /-- Text that is written as it is. -/
  | sql (text : String)
  | column (table column : String)
  /-- The quoted label of a table. -/
  | label (name : String)
  /-- The placeholder of a value at its position among the parameters. -/
  | param (position : Nat) (value : Value)
  | lparen
  | rparen
  | and
  | or
  | not

abbrev Fragment := List Token

def Flavor.placeholder (fl : Flavor) (position : Nat) : String :=
  match fl with
  | .postgresql => "$" ++ Numeral.ofNat position
  | .sqlite => "?" ++ Numeral.ofNat position

/-- A quoted name for SQL that is written outside of statements. All flavors quote alike. -/
def Flavor.quote (_ : Flavor) (name : String) : String := "\"" ++ Identifier.doubled name ++ "\""

def qualified (table column : String) : String :=
  Identifier.quote table ++ "." ++ Identifier.quote column

/-- The name of a table: every part between dots is quoted, and an expression is not. -/
def tableText : TableName → String
  | .ident name => String.intercalate "." ((Segments.ofName name).map Identifier.quote)
  | .expr sql => sql

def Token.text (fl : Flavor) : Token → String
  | .sql s => s
  | .column t c => qualified t c
  | .label n => Identifier.quote n
  | .param n _ => fl.placeholder n
  | .lparen => "("
  | .rparen => ")"
  | .and => " AND "
  | .or => " OR "
  | .not => "NOT "

def Fragment.text (fl : Flavor) (f : Fragment) : String := String.join (f.map (Token.text fl))

/-- Fragments with a token between any two of them. -/
def between (t : Token) : List Fragment → Fragment
  | [] => []
  | [f] => f
  | f :: r => f ++ t :: between t r

def commaSeparated (fs : List Fragment) : Fragment := between (.sql ", ") fs

end TreeQuery.Sql
