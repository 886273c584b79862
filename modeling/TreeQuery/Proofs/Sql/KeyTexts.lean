import TreeQuery.Proofs.Sql.ConditionText
import TreeQuery.Proofs.Sql.Keyset
import TreeQuery.Proofs.Sql.Words
import TreeQuery.Sql.OfPlan

/-!
What a database makes of the text of a composite key. It reads the text as an expression over the
columns of the key, puts their texts one right after the other, and takes an empty text for null.
-/

namespace TreeQuery.Sql

open Scanning

/-- An expression over columns that hold texts or nulls. -/
inductive TextExpr where
  | column (source : String)
  | empty
  /-- Nulls among the arguments add nothing. -/
  | concat (arguments : List TextExpr)
  /-- Null if either is. -/
  | append (first second : TextExpr)
  /-- Null if the two are equal. -/
  | nullIf (value other : TextExpr)

namespace TextExpr

mutual

/-- The text of an expression in a row, none if it is null. -/
def eval (ρ : Record) : TextExpr → Option String
  | .column source => (ρ source).text?
  | .empty => some ""
  | .concat es => some (evalAll ρ es)
  | .append e f => (e.eval ρ).bind (fun s => (f.eval ρ).map (s ++ ·))
  | .nullIf e f => (e.eval ρ).filter (fun s => f.eval ρ ≠ some s)

def evalAll (ρ : Record) : List TextExpr → String
  | [] => ""
  | e :: es => (e.eval ρ).getD "" ++ evalAll ρ es

end

/-- The call of a function. -/
def call? : String → List TextExpr → Option TextExpr
  | "CONCAT", es => some (.concat es)
  | "NULLIF", [e, f] => some (.nullIf e f)
  | _, _ => none

/-- Goes on from the quoted label of a table to the name of its column. -/
def column? (label : String) : Fragment → Option (TextExpr × Fragment)
  | .sql "." :: .sql c :: r => some (.column (label ++ "." ++ c), r)
  | _ => none

mutual

/-- Reads a call, an empty text or a column, and returns the words after it. Every call of the
reader takes from the fuel, of which no more is needed than there are words. -/
def operand? : Nat → Fragment → Option (TextExpr × Fragment)
  | fuel + 1, .sql s :: .lparen :: r =>
    (arguments? fuel r).bind (fun (es, r) => (call? s es).map (fun e => (e, r)))
  | _ + 1, .sql s :: r => if s = "''" then some (.empty, r) else column? s r
  | _, _ => none

/-- Goes on with what is appended to an expression. -/
def appended? : Nat → TextExpr → Fragment → Option (TextExpr × Fragment)
  | fuel + 1, e, .sql "|" :: .sql "|" :: r =>
    (operand? fuel r).bind (fun (f, r) => appended? fuel (.append e f) r)
  | _, e, r => some (e, r)

def expression? : Nat → Fragment → Option (TextExpr × Fragment)
  | fuel + 1, r => (operand? fuel r).bind (fun (e, r) => appended? fuel e r)
  | 0, _ => none

/-- Reads the arguments of a call up to its end. -/
def arguments? : Nat → Fragment → Option (List TextExpr × Fragment)
  | fuel + 1, r => match expression? fuel r with
    | some (e, .rparen :: r) => some ([e], r)
    | some (e, .sql "," :: r) => (arguments? fuel r).map (fun (es, r) => (e :: es, r))
    | _ => none
  | 0, _ => none

end

/-- The expression that a text stands for. -/
def read? (s : String) : Option TextExpr :=
  (split? s.toList).bind (fun words => match expression? words.length words with
    | some (e, []) => some e
    | _ => none)

end TextExpr

section Words

variable (t : String)

/-- The words of columns, with the same words in front of each. -/
def columnsAfter (words : Fragment) (t : String) (cs : List String) : Fragment :=
  cs.flatMap (fun c => words ++ columnWords t c)

theorem columnsAfter_cons (words : Fragment) (t c : String) (cs : List String) :
    columnsAfter words t (c :: cs) = words ++ (columnWords t c ++ columnsAfter words t cs) := by
  rw [columnsAfter, List.flatMap_cons, List.append_assoc]
  rfl

/-- Columns after another one, with the same mark between any two. -/
theorem split?_columns {mark : List Char} {words : Fragment}
    (goesOn : ∀ front f, split? front = some f → ∀ back,
      split? (front ++ (mark ++ back)) = (split? back).map (fun g => f ++ (words ++ g)))
    (c : String) (cs : List String) :
    split? ((qualified t c).toList ++ cs.flatMap (fun c => mark ++ (qualified t c).toList)) =
      some (columnWords t c ++ columnsAfter words t cs) := by
  induction cs generalizing c with
  | nil =>
    rw [columnsAfter, List.flatMap_nil, List.append_nil, List.flatMap_nil, List.append_nil]
    exact split?_qualified t c
  | cons d cs inductionHypothesis =>
    rw [List.flatMap_cons, List.append_assoc, goesOn _ _ (split?_qualified t c),
      inductionHypothesis d, columnsAfter_cons]
    rfl

theorem split?_commas (front : List Char) (f : Fragment) (read : split? front = some f)
    (back : List Char) : split? (front ++ ([',', ' '] ++ back)) =
      (split? back).map (fun g => f ++ ([.sql ","] ++ g)) := by
  rw [List.cons_append, split?_append (by decide) read, List.cons_append, List.nil_append,
    split?_comma, Option.map_map]
  rfl

theorem split?_bars (front : List Char) (f : Fragment) (read : split? front = some f)
    (back : List Char) : split? (front ++ ([' ', '|', '|', ' '] ++ back)) =
      (split? back).map (fun g => f ++ ([.sql "|", .sql "|"] ++ g)) := by
  have bars : splitFrom .gap ('|' :: '|' :: ' ' :: back) =
      ((splitFrom .gap back).1, .sql "|" :: .sql "|" :: (splitFrom .gap back).2) := rfl
  have words : split? ('|' :: '|' :: ' ' :: back) =
      (split? back).map ([.sql "|", .sql "|"] ++ ·) := by
    simp only [split?, bars]
    split <;> simp
  rw [List.cons_append, split?_append (by decide) read, split?_space]
  rw [List.cons_append, List.cons_append, List.cons_append, List.nil_append, words,
    Option.map_map]
  rfl

/-- The columns of a key as they are written. -/
theorem toList_between {sep : String} (fl : Flavor) (c : String) (cs : List String) :
    (Fragment.text fl (between (.sql sep) ((c :: cs).map (fun c => [.column t c])))).toList =
      (qualified t c).toList ++ cs.flatMap (fun c => sep.toList ++ (qualified t c).toList) := by
  induction cs generalizing c with
  | nil => simp [between]
  | cons d cs inductionHypothesis =>
    have later := inductionHypothesis d
    rw [List.map_cons, between_cons _ _ (by simp)]
    simp only [List.singleton_append, Fragment.text_cons, Token.text_column, Token.text_sql,
      String.toList_append, later, List.flatMap_cons, List.append_assoc]

/-- The words of a composite key over a column and more. -/
def keyWords (fl : Flavor) (t c : String) (cs : List String) : Fragment :=
  match fl with
  | .postgresql => [.sql "NULLIF", .lparen, .sql "CONCAT", .lparen] ++ (columnWords t c ++
      columnsAfter [.sql ","] t cs) ++
      [.rparen, .sql ",", .sql "''", .rparen]
  | .sqlite => [.sql "NULLIF", .lparen] ++ (columnWords t c ++
      columnsAfter [.sql "|", .sql "|"] t cs) ++
      [.sql ",", .sql "''", .rparen]

theorem split?_compositeSource (fl : Flavor) (p : Plan.Table) (c : String) (cs : List String) :
    split? ((compositeSource fl p (c :: cs)).text fl).toList =
      some (keyWords fl p.label c cs) := by
  cases fl with
  | postgresql =>
    have columns := split?_columns p.label split?_commas c cs
    have text : ((compositeSource .postgresql p (c :: cs)).text .postgresql).toList =
        "NULLIF".toList ++ '(' :: ("CONCAT".toList ++ '(' :: (((qualified p.label c).toList ++
          cs.flatMap (fun c => [',', ' '] ++ (qualified p.label c).toList)) ++
          ')' :: ", '')".toList)) := by
      rw [compositeSource]
      simp only [Fragment.text_cons, Fragment.text_append, Token.text_sql, Fragment.text_nil,
        String.toList_append, commaSeparated, List.map_cons]
      rw [← List.map_cons (f := fun c => [Token.column p.label c]), toList_between]
      simp
    rw [text, split?_append (f := [.sql "NULLIF"]) (by decide) rfl, split?_lparen,
      split?_append (f := [.sql "CONCAT"]) (by decide) rfl, split?_lparen,
      split?_append (by decide) columns]
    simp only [keyWords]
    have ending : split? (')' :: ", '')".toList) =
        some [.rparen, .sql ",", .sql "''", .rparen] := rfl
    rw [ending]
    simp
  | sqlite =>
    have columns := split?_columns p.label split?_bars c cs
    have text : ((compositeSource .sqlite p (c :: cs)).text .sqlite).toList =
        "NULLIF".toList ++ '(' :: (((qualified p.label c).toList ++
          cs.flatMap (fun c => [' ', '|', '|', ' '] ++ (qualified p.label c).toList)) ++
          ',' :: " '')".toList) := by
      rw [compositeSource]
      simp only [Fragment.text_cons, Fragment.text_append, Token.text_sql, Fragment.text_nil,
        String.toList_append]
      rw [toList_between]
      simp
    rw [text, split?_append (f := [.sql "NULLIF"]) (by decide) rfl, split?_lparen,
      split?_append (by decide) columns]
    have ending : split? (',' :: " '')".toList) =
        some [.sql ",", .sql "''", .rparen] := rfl
    rw [ending]
    simp [keyWords]

end Words

namespace TextExpr

variable (t : String) {fuel : Nat}

theorem operand?_column (c : String) (r : Fragment) :
    operand? (fuel + 1) (columnWords t c ++ r) = some (.column (qualified t c), r) := by
  have quoted : Identifier.quote t ≠ "''" := by
    intro same
    have first := congrArg (fun s => s.toList.head?) same
    simp [Identifier.quote] at first
  rw [columnWords, List.cons_append, operand?, if_neg quoted]
  · rfl
  · simp

/-- Columns that are appended to an expression. -/
theorem appended?_columns (cs : List String) (e : TextExpr) (r : Fragment)
    (enough : cs.length + 1 < fuel) :
    appended? fuel e (columnsAfter [.sql "|", .sql "|"] t cs ++
      .sql "," :: r) =
      some (cs.foldl (fun e c => .append e (.column (qualified t c))) e, .sql "," :: r) := by
  induction cs generalizing e fuel with
  | nil => cases fuel <;> rfl
  | cons c cs inductionHypothesis =>
    rw [List.length_cons] at enough
    obtain ⟨fuel, rfl⟩ : ∃ n, fuel = n + 2 := ⟨fuel - 2, by omega⟩
    rw [columnsAfter_cons, List.append_assoc, List.append_assoc]
    simp only [List.cons_append, List.nil_append]
    rw [appended?, operand?_column, Option.bind_some]
    exact inductionHypothesis _ (by omega)

theorem expression?_column (c : String) {r : Fragment} (ends : ∀ f, r ≠ .sql "|" :: .sql "|" :: f) :
    expression? (fuel + 2) (columnWords t c ++ r) = some (.column (qualified t c), r) := by
  rw [expression?, operand?_column, Option.bind_some]
  simp only
  rw [appended?]
  exact fun _ f _ => ends f

/-- Columns that are the arguments of a call. -/
theorem arguments?_columns (c : String) (cs : List String) (r : Fragment)
    (enough : cs.length + 2 < fuel) :
    arguments? fuel (columnWords t c ++ (columnsAfter [.sql ","] t cs ++ .rparen :: r)) =
      some ((c :: cs).map (fun c => .column (qualified t c)), r) := by
  induction cs generalizing c fuel with
  | nil =>
    obtain ⟨fuel, rfl⟩ : ∃ n, fuel = n + 3 := ⟨fuel - 3, by simp at enough; omega⟩
    rw [columnsAfter, List.flatMap_nil, List.nil_append, arguments?,
      expression?_column t c (by simp)]
    rfl
  | cons d cs inductionHypothesis =>
    rw [List.length_cons] at enough
    obtain ⟨fuel, rfl⟩ : ∃ n, fuel = n + 3 := ⟨fuel - 3, by omega⟩
    rw [columnsAfter_cons, List.append_assoc, List.append_assoc, arguments?,
      expression?_column t c (by simp)]
    simp only [List.cons_append, List.nil_append]
    rw [inductionHypothesis]
    · rfl
    · omega

/-- The columns of a key with bars between them. -/
def appendAll (t c : String) (cs : List String) : TextExpr :=
  cs.foldl (fun e c => .append e (.column (qualified t c))) (.column (qualified t c))

/-- The expression of a composite key over a column and more. -/
def ofKey (fl : Flavor) (t c : String) (cs : List String) : TextExpr :=
  match fl with
  | .postgresql => .nullIf (.concat ((c :: cs).map (fun c => .column (qualified t c)))) .empty
  | .sqlite => .nullIf (appendAll t c cs) .empty

theorem expression?_keyWords (fl : Flavor) (c : String) (cs : List String)
    (enough : cs.length + 8 ≤ fuel) :
    expression? fuel (keyWords fl t c cs) = some (ofKey fl t c cs, []) := by
  obtain ⟨fuel, rfl⟩ : ∃ n, fuel = n + 8 := ⟨fuel - 8, by omega⟩
  -- What follows the texts of the columns is the empty text.
  have last : arguments? (fuel + 5) [.sql "''", .rparen] = some ([.empty], []) := rfl
  cases fl with
  | postgresql =>
    have inner : arguments? (fuel + 3) (columnWords t c ++ (columnsAfter [.sql ","] t cs ++
        [.rparen, .sql ",", .sql "''", .rparen])) = _ :=
      arguments?_columns t c cs [.sql ",", .sql "''", .rparen] (by omega)
    have call : expression? (fuel + 5) (.sql "CONCAT" :: .lparen :: (columnWords t c ++
        (columnsAfter [.sql ","] t cs ++ [.rparen, .sql ",", .sql "''", .rparen]))) =
        some (.concat ((c :: cs).map (fun c => .column (qualified t c))),
          [.sql ",", .sql "''", .rparen]) := by
      rw [expression?, operand?, inner]
      rfl
    have last : arguments? (fuel + 6) ([.sql "CONCAT", .lparen] ++ (columnWords t c ++
        (columnsAfter [.sql ","] t cs ++ [.rparen, .sql ",", .sql "''", .rparen]))) =
        some ([.concat ((c :: cs).map (fun c => .column (qualified t c))), .empty], []) := by
      rw [List.cons_append, List.cons_append, List.nil_append, arguments?, call]
      rfl
    rw [keyWords, List.append_assoc, List.append_assoc]
    simp only [List.cons_append, List.nil_append] at last ⊢
    rw [expression?, operand?, last]
    rfl
  | sqlite =>
    have columns : expression? (fuel + 5) (columnWords t c ++
        (columnsAfter [.sql "|", .sql "|"] t cs ++ [.sql ",", .sql "''", .rparen])) =
        some (appendAll t c cs, [.sql ",", .sql "''", .rparen]) := by
      rw [expression?, operand?_column, Option.bind_some]
      exact appended?_columns t cs _ _ (by omega)
    have last : arguments? (fuel + 6) (columnWords t c ++
        (columnsAfter [.sql "|", .sql "|"] t cs ++ [.sql ",", .sql "''", .rparen])) =
        some ([appendAll t c cs, .empty], []) := by
      rw [arguments?, columns]
      rfl
    rw [keyWords, List.append_assoc, List.append_assoc]
    simp only [List.cons_append, List.nil_append]
    rw [expression?, operand?, last]
    rfl

theorem length_columnsAfter (words : Fragment) (cs : List String) :
    cs.length ≤ (columnsAfter words t cs).length := by
  induction cs with
  | nil => exact Nat.le_refl 0
  | cons c cs inductionHypothesis =>
    rw [columnsAfter_cons]
    simp [columnWords]
    omega

/-- The text of a composite key stands for its expression. -/
theorem read?_compositeSource (fl : Flavor) (p : Plan.Table) (c : String) (cs : List String) :
    read? ((compositeSource fl p (c :: cs)).text fl) = some (ofKey fl p.label c cs) := by
  have enough : cs.length + 8 ≤ (keyWords fl p.label c cs).length := by
    cases fl with
    | postgresql =>
      have columns := length_columnsAfter p.label [.sql ","] cs
      simp [keyWords, columnWords]
      omega
    | sqlite =>
      have columns := length_columnsAfter p.label [.sql "|", .sql "|"] cs
      simp [keyWords, columnWords]
      omega
  rw [read?, split?_compositeSource, Option.bind_some, expression?_keyWords p.label fl c cs enough]

end TextExpr

section Values

variable {t : String} {ρ τ : Record}

/-- The columns of a key hold texts. -/
def Record.HasTexts (ρ : Record) (t : String) (columns : List String) : Prop :=
  ∀ c ∈ columns, ∃ s, ρ (qualified t c) = .text s

/-- The texts of the columns of a key. -/
def Record.keyTexts (ρ : Record) (t : String) (columns : List String) : List String :=
  columns.map (fun c => (ρ (qualified t c)).text?.getD "")

theorem evalAll_columns (t : String) (columns : List String) (ρ : Record) :
    TextExpr.evalAll ρ (columns.map (fun c => .column (qualified t c))) =
      String.join (ρ.keyTexts t columns) := by
  induction columns with
  | nil => rfl
  | cons c columns inductionHypothesis =>
    rw [List.map_cons, TextExpr.evalAll, inductionHypothesis]
    rw [Record.keyTexts, Record.keyTexts, List.map_cons, String.join_cons]
    rfl

theorem eval_appended {columns : List String} (texts : ρ.HasTexts t columns) (e : TextExpr) :
    (columns.foldl (fun e c => .append e (.column (qualified t c))) e : TextExpr).eval ρ =
      (e.eval ρ).map (· ++ String.join (ρ.keyTexts t columns)) := by
  induction columns generalizing e with
  | nil => simp [Record.keyTexts]
  | cons c columns inductionHypothesis =>
    obtain ⟨⟨s, cell⟩, texts⟩ := List.forall_mem_cons.mp texts
    rw [List.foldl_cons, inductionHypothesis texts]
    simp [TextExpr.eval, cell, Value.text?, Record.keyTexts]
    cases e.eval ρ <;> simp [String.append_assoc]

/-- A text, but null in place of an empty one. -/
def nullIfEmpty (s : String) : Option String := if s = "" then none else some s

/-- The value of a composite key is the texts of its columns put together, in either flavor. -/
theorem eval_ofKey (fl : Flavor) {c : String} {cs : List String} (texts : ρ.HasTexts t (c :: cs)) :
    (TextExpr.ofKey fl t c cs).eval ρ = nullIfEmpty (String.join (ρ.keyTexts t (c :: cs))) := by
  have folded (s : String) : (some s).filter (fun s => some "" ≠ some s) = nullIfEmpty s := by
    by_cases empty : s = "" <;> simp [nullIfEmpty, empty, Option.filter, eq_comm]
  cases fl with
  | postgresql =>
    rw [TextExpr.ofKey, TextExpr.eval, TextExpr.eval, TextExpr.eval, evalAll_columns]
    exact folded _
  | sqlite =>
    obtain ⟨⟨s, cell⟩, others⟩ := List.forall_mem_cons.mp texts
    have whole : (TextExpr.appendAll t c cs).eval ρ =
        some (String.join (ρ.keyTexts t (c :: cs))) := by
      rw [TextExpr.appendAll, eval_appended others, TextExpr.eval, cell]
      simp [Value.text?, Record.keyTexts, cell]
    rw [TextExpr.ofKey, TextExpr.eval, TextExpr.eval, whole]
    exact folded _

end Values

end TreeQuery.Sql
