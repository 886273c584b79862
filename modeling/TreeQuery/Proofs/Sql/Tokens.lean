import TreeQuery.Proofs.Sql.Reading
import TreeQuery.Sql.OfPlan

/-!
Statements as sequences of tokens. Their text is the text of the tokens, one after the other, so
what holds of the placeholders in the sequence holds of the placeholders in the SQL.
-/

namespace TreeQuery.Sql

/-- The sign that a placeholder has before its position. -/
def Flavor.sign : Flavor → String
  | .postgresql => "$"
  | .sqlite => "?"

theorem Flavor.placeholder_eq (fl : Flavor) (position : Nat) :
    fl.placeholder position = fl.sign ++ Numeral.ofNat position := by cases fl <;> rfl

/-- Placeholders are written `$1`, `$2`, … or `?1`, `?2`, …, whatever their values are. -/
theorem Token.text_param (fl : Flavor) (position : Nat) (v : Value) :
    (Token.param position v).text fl = fl.sign ++ Numeral.ofNat position :=
  fl.placeholder_eq position

@[simp] theorem Token.text_sql (fl : Flavor) (s : String) : (Token.sql s).text fl = s := rfl

@[simp] theorem Token.text_column (fl : Flavor) (t c : String) :
    (Token.column t c).text fl = qualified t c := rfl

@[simp] theorem Token.text_label (fl : Flavor) (n : String) :
    (Token.label n).text fl = Identifier.quote n := rfl

@[simp] theorem Token.text_lparen (fl : Flavor) : Token.lparen.text fl = "(" := rfl

@[simp] theorem Token.text_rparen (fl : Flavor) : Token.rparen.text fl = ")" := rfl

@[simp] theorem Fragment.text_nil (fl : Flavor) : Fragment.text fl [] = "" := rfl

@[simp] theorem Fragment.text_cons (fl : Flavor) (t : Token) (f : Fragment) :
    Fragment.text fl (t :: f) = t.text fl ++ Fragment.text fl f := by
  simp [Fragment.text]

@[simp] theorem Fragment.text_append (fl : Flavor) (f g : Fragment) :
    Fragment.text fl (f ++ g) = Fragment.text fl f ++ Fragment.text fl g := by
  simp [Fragment.text]

theorem Fragment.text_flatMap {α : Type} (fl : Flavor) (f : α → Fragment) (l : List α) :
    Fragment.text fl (l.flatMap f) = String.join (l.map (fun a => Fragment.text fl (f a))) := by
  induction l with
  | nil => rfl
  | cons a l inductionHypothesis => simp [inductionHypothesis]

def SelectItem.tokens (i : SelectItem) : Fragment := i.source ++ [.sql " AS ", .label i.output]

def OrderTerm.tokens (o : OrderTerm) : Fragment :=
  [.column o.table o.column, .sql (" " ++ o.direction.sql)]

def orderTokens (os : List OrderTerm) : Fragment := commaSeparated (os.map OrderTerm.tokens)

def InnerJoin.tokens (j : InnerJoin) : Fragment :=
  .sql ("LEFT JOIN " ++ tableText j.table ++ " ") :: .label j.label :: .sql "\n    ON " :: j.on

/-- Conditions after the word that introduces them. -/
def conditionTokens (introduction : String) (fs : List Fragment) : Fragment :=
  if fs.isEmpty then [] else .sql introduction :: between .and fs

def Page.tokens (fl : Flavor) (p : Page) : Fragment :=
  .sql "  SELECT " :: .label p.label :: .sql ".*" ::
    (if p.counted then [.sql ", count(*) OVER () AS ", .label Plan.totalColumn] else []) ++
    .sql ("\n  FROM " ++ tableText p.table ++ " ") :: .label p.label ::
    (match p.inner with
      | some j => .sql "\n  " :: j.tokens
      | none => []) ++
    conditionTokens "\n  WHERE " p.conditions ++
    .sql "\n  ORDER BY " :: orderTokens p.order ++
    .sql ("\n  " ++ fl.limit p.limit) ::
    (match p.offset with
      | some n => [.sql (" OFFSET " ++ Numeral.ofNat n)]
      | none => []) ++
    [.sql "\n) ", .label p.label]

def TableItem.tokens (fl : Flavor) : TableItem → Fragment
  | .base t a => [.sql ("FROM " ++ tableText t ++ " AS "), .label a]
  | .leftJoin t a withAs on =>
    .sql ("LEFT JOIN " ++ tableText t ++ (if withAs then " AS " else " ")) :: .label a ::
      .sql " ON " :: on
  | .scope c values =>
    .sql "FROM (VALUES " :: commaSeparated (values.map (fun t => [.lparen, t, .rparen])) ++
      [.sql ") ", .label scopeLabel, .lparen, .label c, .rparen]
  | .page p => .sql "FROM (\n" :: p.tokens fl
  | .lateral outer p on =>
    .sql (if outer then "LEFT JOIN LATERAL (\n" else "JOIN LATERAL (\n") :: p.tokens fl ++
      .sql " ON " :: on

def Part.tokens (fl : Flavor) (p : Part) : Fragment :=
  .sql "SELECT\n  " :: between (.sql ",\n  ") ((p.selected fl).map SelectItem.tokens) ++
    p.tables.flatMap (fun t => .sql "\n" :: t.tokens fl) ++
    conditionTokens "\nWHERE " p.conditions ++
    (if p.orders.isEmpty then [] else .sql "\nORDER BY " :: orderTokens p.orders)

variable {fl : Flavor}

theorem SelectItem.text_tokens (i : SelectItem) : Fragment.text fl i.tokens = i.text fl := by
  simp [tokens, text, String.append_assoc]

theorem text_orderTokens (os : List OrderTerm) :
    Fragment.text fl (orderTokens os) = orderText os := by
  have terms : (os.map OrderTerm.tokens).map (Fragment.text fl) = os.map OrderTerm.text := by
    simp [OrderTerm.tokens, OrderTerm.text, Function.comp_def, String.append_assoc]
  rw [orderTokens, commaSeparated, text_between, terms]
  rfl

theorem InnerJoin.text_tokens (j : InnerJoin) : Fragment.text fl j.tokens = j.text fl := by
  simp [tokens, text, String.append_assoc]

theorem text_conditionTokens (introduction : String) (fs : List Fragment) :
    Fragment.text fl (conditionTokens introduction fs) =
      if fs.isEmpty then "" else introduction ++ conjunction fl fs := by
  rw [conditionTokens]
  split
  · rfl
  · rw [Fragment.text_cons, text_between]
    rfl

theorem Page.text_tokens (p : Page) : Fragment.text fl (p.tokens fl) = p.text fl := by
  have counted : Fragment.text fl (if p.counted then
      [.sql ", count(*) OVER () AS ", .label Plan.totalColumn] else []) =
      if p.counted then ", count(*) OVER () AS " ++ Identifier.quote Plan.totalColumn else "" := by
    cases p.counted <;> simp
  unfold Page.tokens Page.text
  cases p.inner <;> cases p.offset <;>
    simp only [Fragment.text_append, Fragment.text_cons, Fragment.text_nil, Token.text_sql,
      Token.text_label, counted, text_conditionTokens, text_orderTokens, InnerJoin.text_tokens,
      String.append_assoc, String.append_empty]

theorem TableItem.text_tokens (t : TableItem) : Fragment.text fl (t.tokens fl) = t.text fl := by
  unfold TableItem.tokens TableItem.text
  cases t with
  | base t a => simp [String.append_assoc]
  | leftJoin t a withAs on => simp [String.append_assoc]
  | scope c values =>
    have rows : (values.map (fun t => [Token.lparen, t, .rparen])).map (Fragment.text fl) =
        values.map (fun t => "(" ++ t.text fl ++ ")") := by
      simp [Function.comp_def, String.append_assoc]
    simp [commaSeparated, text_between, rows, String.append_assoc]
  | page p => simp [Page.text_tokens]
  | lateral outer p on => simp [Page.text_tokens, String.append_assoc]

/-- The SQL of a statement is the text of its tokens. -/
theorem Part.text_tokens (p : Part) (params : Params) :
    Fragment.text fl (p.tokens fl) = Statement.sql fl ⟨p, params⟩ := by
  have items : ((p.selected fl).map SelectItem.tokens).map (Fragment.text fl) =
      (p.selected fl).map (SelectItem.text fl) := by
    simp [SelectItem.text_tokens, Function.comp_def]
  have tables : Fragment.text fl (p.tables.flatMap (fun t => .sql "\n" :: t.tokens fl)) =
      String.join (p.tables.map (fun t => "\n" ++ t.text fl)) := by
    simp only [Fragment.text_flatMap, Fragment.text_cons, TableItem.text_tokens, Token.text_sql]
  have orders : Fragment.text fl (if p.orders.isEmpty then []
      else .sql "\nORDER BY " :: orderTokens p.orders) =
      if p.orders.isEmpty then "" else "\nORDER BY " ++ orderText p.orders := by
    split
    · rfl
    · rw [Fragment.text_cons, text_orderTokens]
      rfl
  rw [tokens, Statement.sql]
  simp only [Fragment.text_append, Fragment.text_cons, text_between, items, tables,
    text_conditionTokens, orders, Token.text_sql]

end TreeQuery.Sql
