import TreeQuery.Plan.OfSelection
import TreeQuery.Sql.Error

/-!
Select statements: what they select, from which tables, under which conditions and in which
order.
-/

namespace TreeQuery.Sql

structure SelectItem where
  source : Fragment
  /-- The name that the column has in the result. -/
  output : String

structure OrderTerm where
  table : String
  column : String
  direction : Direction
  deriving DecidableEq

/-- A table joined within a page, so that the page can be filtered and ordered by it. -/
structure InnerJoin where
  table : TableName
  label : String
  on : Fragment

/-- A select of one page of a table. -/
structure Page where
  table : TableName
  label : String
  /-- Also count all rows of the page's table that match. -/
  counted : Bool
  inner : Option InnerJoin
  conditions : List Fragment
  order : List OrderTerm
  limit : Option Nat
  offset : Option Nat

inductive TableItem where
  | base (table : TableName) (label : String)
  | leftJoin (table : TableName) (label : String) (withAs : Bool) (on : Fragment)
  /-- The keys of a batch as a table of one column. -/
  | scope (column : String) (values : List Token)
  | page (p : Page)
  /-- A page for each row of the tables before it. -/
  | lateral (outer : Bool) (p : Page) (on : Fragment)

structure Part where
  items : List SelectItem
  tables : List TableItem
  conditions : List Fragment
  orders : List OrderTerm

namespace Part

def empty : Part := ⟨[], [], [], []⟩

def append (a b : Part) : Part :=
  ⟨a.items ++ b.items, a.tables ++ b.tables, a.conditions ++ b.conditions, a.orders ++ b.orders⟩

instance : Append Part := ⟨append⟩

end Part

structure Statement where
  part : Part
  params : Params

structure Query where
  sql : String
  params : Params

def SelectItem.text (fl : Flavor) (i : SelectItem) : String :=
  i.source.text fl ++ " AS " ++ Identifier.quote i.output

def OrderTerm.text (o : OrderTerm) : String := qualified o.table o.column ++ " " ++ o.direction.sql

/-- The label of a batch scope. -/
def scopeLabel : String := "temp"

def Flavor.limit (fl : Flavor) : Option Nat → String
  | some n => "LIMIT " ++ Numeral.ofNat n
  | none => match fl with
    | .postgresql => "LIMIT ALL"
    | .sqlite => "LIMIT -1"

/-- Conditions that all have to hold. -/
def conjunction (fl : Flavor) (fs : List Fragment) : String :=
  String.intercalate " AND " (fs.map (Fragment.text fl))

def orderText (os : List OrderTerm) : String := String.intercalate ", " (os.map OrderTerm.text)

def InnerJoin.text (fl : Flavor) (j : InnerJoin) : String :=
  "LEFT JOIN " ++ tableText j.table ++ " " ++ Identifier.quote j.label ++ "\n    ON " ++
    j.on.text fl

def Page.text (fl : Flavor) (p : Page) : String :=
  let label := Identifier.quote p.label
  "  SELECT " ++ label ++ ".*" ++
    (if p.counted then ", count(*) OVER () AS " ++ Identifier.quote Plan.totalColumn else "") ++
    "\n  FROM " ++ tableText p.table ++ " " ++ label ++
    (match p.inner with
      | some j => "\n  " ++ j.text fl
      | none => "") ++
    (if p.conditions.isEmpty then "" else "\n  WHERE " ++ conjunction fl p.conditions) ++
    "\n  ORDER BY " ++ orderText p.order ++ "\n  " ++ fl.limit p.limit ++
    (match p.offset with
      | some n => " OFFSET " ++ Numeral.ofNat n
      | none => "") ++
    "\n) " ++ label

def TableItem.text (fl : Flavor) : TableItem → String
  | .base t a => "FROM " ++ tableText t ++ " AS " ++ Identifier.quote a
  | .leftJoin t a withAs on =>
    "LEFT JOIN " ++ tableText t ++ (if withAs then " AS " else " ") ++ Identifier.quote a ++
      " ON " ++ on.text fl
  | .scope c values =>
    "FROM (VALUES " ++
      String.intercalate ", " (values.map (fun t => "(" ++ t.text fl ++ ")")) ++ ") " ++
      Identifier.quote scopeLabel ++ "(" ++ Identifier.quote c ++ ")"
  | .page p => "FROM (\n" ++ p.text fl
  | .lateral outer p on =>
    (if outer then "LEFT JOIN LATERAL (\n" else "JOIN LATERAL (\n") ++ p.text fl ++ " ON " ++
      on.text fl

/-- The select items, each text once. -/
def Part.selected (fl : Flavor) (p : Part) : List SelectItem :=
  p.items.eraseDupsBy (fun a b => a.text fl == b.text fl)

def Statement.sql (fl : Flavor) (s : Statement) : String :=
  let p := s.part
  "SELECT\n  " ++ String.intercalate ",\n  " ((p.selected fl).map (SelectItem.text fl)) ++
    String.join (p.tables.map (fun t => "\n" ++ t.text fl)) ++
    (if p.conditions.isEmpty then "" else "\nWHERE " ++ conjunction fl p.conditions) ++
    (if p.orders.isEmpty then "" else "\nORDER BY " ++ orderText p.orders)

def Statement.query (fl : Flavor) (s : Statement) : Query := ⟨s.sql fl, s.params⟩

end TreeQuery.Sql
