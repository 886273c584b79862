import TreeQuery.Proofs.Sql.Scanning
import TreeQuery.Proofs.Sql.Words
import TreeQuery.Proofs.Success
import TreeQuery.Sql.Predicate

/-!
The texts of conditions. Every condition that is not a group or raw SQL is written as one operand,
and connectives, negations and parentheses between texts are read as what they are.
-/

namespace TreeQuery.Sql

open Scanning

variable {s t : String} {f g : Fragment}

theorem scan?_eq_some : scan? s = some g ↔
    ∃ f, split? s.toList = some f ∧ settle .start f = (.inside false, g) := by
  unfold scan?
  rw [Option.bind_eq_some_iff]
  constructor
  · rintro ⟨f, words, settled⟩
    split at settled
    · rename_i spot
      exact ⟨f, words, Prod.ext spot (Option.some.inj settled)⟩
    · cases settled
  · rintro ⟨f, words, settled⟩
    exact ⟨f, words, by rw [settled]; rfl⟩

def Connective.letters : Connective → List Char
  | .and => ['A', 'N', 'D']
  | .or => ['O', 'R']

theorem Connective.toList_text (fl : Flavor) (c : Connective) :
    ((Connective.token c).text fl).toList = ' ' :: (Connective.letters c ++ [' ']) := by
  cases c <;> simp [Connective.token, Token.text, Connective.letters]

theorem Connective.split?_letters (c : Connective) :
    split? (Connective.letters c) = some [Connective.token c] := by
  cases c <;> rfl

theorem scan?_connective (fl : Flavor) (c : Connective) (front : scan? s = some f)
    (back : scan? t = some g) :
    scan? (s ++ (Connective.token c).text fl ++ t) = some (f ++ Connective.token c :: g) := by
  obtain ⟨f', words, settled⟩ := scan?_eq_some.mp front
  obtain ⟨g', words', settled'⟩ := scan?_eq_some.mp back
  have text : (s ++ (Connective.token c).text fl ++ t).toList =
      s.toList ++ ' ' :: (Connective.letters c ++ ' ' :: t.toList) := by
    simp [Connective.toList_text]
  refine scan?_eq_some.mpr ⟨f' ++ Connective.token c :: g', ?_, ?_⟩
  · rw [text]
    exact split?_spaced words (split?_spaced (Connective.split?_letters c) words')
  · have step : Spot.step (.inside false) (Connective.token c) = (.start, Connective.token c) := by
      cases c <;> rfl
    rw [settle_append, settled, settle, step, settled']

theorem scan?_parenthesised (inside : scan? t = some g) :
    scan? ("(" ++ t ++ ")") = some (parenthesised g) := by
  obtain ⟨g', words, settled⟩ := scan?_eq_some.mp inside
  have text : ("(" ++ t ++ ")").toList = '(' :: (t.toList ++ ')' :: []) := by
    simp
  refine scan?_eq_some.mpr ⟨.lparen :: (g' ++ [.rparen]), ?_, ?_⟩
  · rw [text, split?_lparen, split?_append (by decide) words, split?_rparen]
    rfl
  · rw [settle, settle_append]
    simp [Spot.step, settled, settle, parenthesised]

theorem scan?_negated (inside : scan? t = some g) : scan? ("NOT " ++ t) = some (.not :: g) := by
  obtain ⟨g', words, settled⟩ := scan?_eq_some.mp inside
  refine scan?_eq_some.mpr ⟨.not :: g', ?_, ?_⟩
  · have text : ("NOT " ++ t).toList = ['N', 'O', 'T'] ++ ' ' :: t.toList := by simp
    have word : split? ['N', 'O', 'T'] = some [.not] := rfl
    rw [text, split?_spaced word words]
    rfl
  · rw [settle, Spot.step, settled]

/-- The text of one operand without any grouping in it. -/
def IsAtom (s : String) : Prop := ∃ g, scan? s = some g ∧ g ≠ [] ∧ ∀ t ∈ g, t.isWord = true

theorem isAtom_of_calm (words : split? s.toList = some f) (full : f ≠ [])
    (calm : ∀ t ∈ f, Calm t) : IsAtom s :=
  ⟨f, scan?_eq_some.mpr ⟨f, words, settle_start calm full⟩, full, fun t member => (calm t member).1⟩

theorem isWord_spelled (t : Token) : (spelled t).isWord = true := by cases t <;> rfl

/-- Words with parentheses after them, and anything balanced between these. -/
theorem isAtom_call {head body : List Char}
    (text : s.toList = head ++ ' ' :: '(' :: (body ++ [')']))
    (words : split? head = some f) (full : f ≠ []) (calm : ∀ t ∈ f, Calm t)
    (inner : split? body = some g) (balanced : g.foldlM depthAfter 0 = some 0) : IsAtom s := by
  have split : split? s.toList = some (f ++ .lparen :: (g ++ [.rparen])) := by
    have later : split? ('(' :: (body ++ [')'])) = some (.lparen :: (g ++ [.rparen])) := by
      rw [split?_lparen, split?_append (by decide) inner, split?_rparen]
      rfl
    rw [text, split?_spaced words later]
  have settled : settle .start (f ++ .lparen :: (g ++ [.rparen])) =
      (.inside false, f ++ .sql "(" :: (g.map spelled ++ [.sql ")"])) := by
    rw [settle_append, settle_start calm full, settle, Spot.step, settle_append,
      settle_nested false balanced]
    rfl
  refine ⟨_, scan?_eq_some.mpr ⟨_, split, settled⟩, by simp [full], ?_⟩
  intro t member
  rcases List.mem_append.mp member with first | later
  · exact (calm t first).1
  · simp only [List.mem_cons, List.mem_append, List.mem_map, List.not_mem_nil, or_false] at later
    rcases later with rfl | ⟨u, _, rfl⟩ | rfl
    · rfl
    · exact isWord_spelled u
    · rfl

section Leaves

variable {fl : Flavor} {table column : String} {ps ps' : Params}

def columnWords (table column : String) : Fragment :=
  [.sql (Identifier.quote table), .sql ".", .sql (Identifier.quote column)]

theorem calm_columnWords : ∀ t ∈ columnWords table column, Calm t := by
  simp only [columnWords, List.forall_mem_cons]
  exact ⟨calm_quote table, by decide, calm_quote column, by simp⟩

/-- A column with calm words after it. -/
theorem isAtom_column (table column : String) {cs : List Char} (words : split? cs = some f)
    (calm : ∀ t ∈ f, Calm t)
    (text : s.toList = (qualified table column).toList ++ ' ' :: cs) : IsAtom s := by
  apply isAtom_of_calm (f := columnWords table column ++ f)
  · rw [text, split?_spaced (split?_qualified table column) words]
    rfl
  · simp [columnWords]
  · exact List.forall_mem_append.mpr ⟨calm_columnWords, calm⟩

theorem isAtom_isNull : IsAtom (Fragment.text fl [.column table column, .sql " IS NULL"]) := by
  have words : split? "IS NULL".toList = some [.sql "IS", .sql "NULL"] := rfl
  exact isAtom_column table column words (by decide) (by simp)

theorem isAtom_isNotNull :
    IsAtom (Fragment.text fl [.column table column, .sql " IS NOT NULL"]) := by
  have text : (Fragment.text fl [.column table column, .sql " IS NOT NULL"]).toList =
      (qualified table column).toList ++ ' ' :: "IS NOT NULL".toList := by simp
  have words : split? "IS NOT NULL".toList = some [.sql "IS", .not, .sql "NULL"] := rfl
  have settled : settle .start (columnWords table column ++ [.sql "IS", .not, .sql "NULL"]) =
      (.inside false, columnWords table column ++ [.sql "IS", .sql "NOT", .sql "NULL"]) := by
    rw [settle_append, settle_start calm_columnWords (by simp [columnWords])]
    rfl
  refine ⟨_, scan?_eq_some.mpr ⟨_, ?_, settled⟩, by simp, ?_⟩
  · rw [text, split?_spaced (split?_qualified table column) words]
    rfl
  · exact List.forall_mem_append.mpr ⟨fun t member => (calm_columnWords t member).1, by decide⟩

theorem split?_op (op : CompareOp) : ∃ f, split? op.sql.toList = some f ∧ ∀ t ∈ f, Calm t := by
  cases op <;> exact ⟨_, rfl, by decide⟩

theorem isAtom_compared (op : CompareOp) (position : Nat) (v : Value) : IsAtom
    (Fragment.text fl [.column table column, .sql (" " ++ op.sql ++ " "), .param position v]) := by
  obtain ⟨f, words, calm⟩ := split?_op op
  have calm' : ∀ t ∈ f ++ [.sql (fl.placeholder position)], Calm t :=
    List.forall_mem_append.mpr ⟨calm, by simp [calm_placeholder]⟩
  exact isAtom_column table column (split?_spaced words (split?_placeholder fl position)) calm'
    (by simp [Token.text])

theorem isAtom_columns (op : CompareOp) (table' column' : String) : IsAtom (Fragment.text fl
    [.column table column, .sql (" " ++ op.sql ++ " "), .column table' column']) := by
  obtain ⟨f, words, calm⟩ := split?_op op
  exact isAtom_column table column (split?_spaced words (split?_qualified table' column'))
    (List.forall_mem_append.mpr ⟨calm, calm_columnWords⟩) (by simp)

theorem comparison_atom {op : CompareOp} {v : Value}
    (ran : (comparison (.column table column) op v).run ps = .ok (f, ps')) :
    IsAtom (f.text fl) := by
  unfold comparison at ran
  split at ran
  · obtain ⟨rfl, _⟩ := run_pure_ok.mp ran
    exact isAtom_isNull
  · obtain ⟨rfl, _⟩ := run_pure_ok.mp ran
    exact isAtom_isNotNull
  · obtain ⟨t, _, bound, ran⟩ := run_bind_ok.mp ran
    obtain ⟨rfl, _⟩ := run_pure_ok.mp ran
    cases bound
    exact isAtom_compared op _ v

theorem bindValues_params {vs : List Value} {ts : List Token}
    (ran : (bindValues vs).run ps = .ok (ts, ps')) :
    (∀ t ∈ ts, ∃ position v, t = .param position v) ∧ (ts = [] → vs = []) := by
  induction vs generalizing ps ts ps' with
  | nil =>
    obtain ⟨rfl, _⟩ := run_pure_ok.mp ran
    simp
  | cons v vs inductionHypothesis =>
    obtain ⟨t, _, bound, ran⟩ := run_bind_ok.mp ran
    obtain ⟨ts, _, later, ran⟩ := run_bind_ok.mp ran
    obtain ⟨rfl, _⟩ := run_pure_ok.mp ran
    cases bound
    exact ⟨List.forall_mem_cons.mpr ⟨⟨_, v, rfl⟩, (inductionHypothesis later).1⟩, by simp⟩

/-- Placeholders with commas between them open and close nothing. -/
theorem split?_placeholders (fl : Flavor) {ts : List Token}
    (params : ∀ t ∈ ts, ∃ position v, t = .param position v)
    (full : ts ≠ []) : ∃ g,
      split? (Fragment.text fl (commaSeparated (ts.map (fun t => [t])))).toList = some g ∧
        g.foldlM depthAfter 0 = some 0 := by
  induction ts with
  | nil => exact absurd rfl full
  | cons t ts inductionHypothesis =>
    obtain ⟨⟨position, v, rfl⟩, others⟩ := List.forall_mem_cons.mp params
    have placeholder := split?_placeholder fl position
    rcases eq_or_ne ts [] with rfl | more
    · exact ⟨_, by simpa [commaSeparated, between, Token.text] using placeholder, rfl⟩
    · obtain ⟨g, words, depth⟩ := inductionHypothesis others more
      have text : (Fragment.text fl (commaSeparated ((Token.param position v :: ts).map
          (fun t => [t])))).toList = (fl.placeholder position).toList ++ ',' :: ' ' ::
            (Fragment.text fl (commaSeparated (ts.map (fun t => [t])))).toList := by
        simp [commaSeparated, between_cons _ _ (List.map_eq_nil_iff.not.mpr more), Token.text]
      refine ⟨.sql (fl.placeholder position) :: .sql "," :: g, ?_, depth⟩
      rw [text, split?_append (by decide) placeholder, split?_comma, words]
      rfl

theorem membership_atom {values : List Value} (full : values ≠ [])
    (ran : (membership (.column table column) values).run ps = .ok (f, ps')) :
    IsAtom (f.text fl) := by
  obtain ⟨ts, _, bound, ran⟩ := run_bind_ok.mp ran
  obtain ⟨rfl, _⟩ := run_pure_ok.mp ran
  obtain ⟨params, empty⟩ := bindValues_params bound
  obtain ⟨g, words, depth⟩ := split?_placeholders fl params (full ∘ empty)
  have front : split? ((qualified table column).toList ++ ' ' :: ['I', 'N']) =
      some (columnWords table column ++ [.sql "IN"]) := split?_spaced (split?_qualified _ _) rfl
  refine isAtom_call ?_ front (by simp [columnWords]) ?_ words depth
  · simp
  · exact List.forall_mem_append.mpr ⟨calm_columnWords, by decide⟩

/-- Closes what it opens, and nothing else. -/
def isBalanced (s : String) : Bool :=
  (split? s.toList).any (fun f => f.foldlM depthAfter 0 = some 0)

theorem exists_atom (balanced : isBalanced (f.text fl) = true) :
    IsAtom (Fragment.text fl (.sql "EXISTS (" :: f ++ [.sql ")"])) := by
  obtain ⟨g, words, depth⟩ := (Option.any_eq_true _ _).mp balanced
  have front : split? ['E', 'X', 'I', 'S', 'T', 'S'] = some [.sql "EXISTS"] := rfl
  refine isAtom_call ?_ front (by simp) (by decide) words (by simpa using depth)
  simp

theorem isAtom_true : IsAtom (Fragment.text fl [.sql "TRUE"]) := by
  have text : Fragment.text fl [.sql "TRUE"] = "TRUE" := by simp
  rw [text]
  exact isAtom_of_calm (f := [.sql "TRUE"]) rfl (by simp) (by decide)

theorem isAtom_never : IsAtom (Fragment.text fl [.sql "1 = 0"]) := by
  have text : Fragment.text fl [.sql "1 = 0"] = "1 = 0" := by simp
  rw [text]
  exact isAtom_of_calm (f := [.sql "1", .sql "=", .sql "0"]) rfl (by simp) (by decide)

variable {a : Labels}

theorem columnToken_column {c : ColumnRef} {t : Token}
    (ran : (columnToken a c).run ps = .ok (t, ps')) : ∃ table, t = .column table c.column := by
  obtain ⟨table, _, _, ran⟩ := run_bind_ok.mp ran
  obtain ⟨rfl, _⟩ := run_pure_ok.mp ran
  exact ⟨table, rfl⟩

theorem compare_atom {c : ColumnRef} {op : CompareOp} {v : Value}
    (ran : (condition a (.compare c op v)).run ps = .ok (f, ps')) : IsAtom (f.text fl) := by
  rw [condition] at ran
  obtain ⟨column, _, resolved, ran⟩ := run_bind_ok.mp ran
  obtain ⟨table, rfl⟩ := columnToken_column resolved
  exact comparison_atom ran

theorem compareColumns_atom {l r : ColumnRef} {op : CompareOp}
    (ran : (condition a (.compareColumns l op r)).run ps = .ok (f, ps')) :
    IsAtom (f.text fl) := by
  rw [condition] at ran
  obtain ⟨left, _, resolved, ran⟩ := run_bind_ok.mp ran
  obtain ⟨right, _, resolved', ran⟩ := run_bind_ok.mp ran
  obtain ⟨table, rfl⟩ := columnToken_column resolved
  obtain ⟨table', rfl⟩ := columnToken_column resolved'
  obtain ⟨rfl, _⟩ := run_pure_ok.mp ran
  exact isAtom_columns op table' r.column

theorem within_atom {c : ColumnRef} {values : List Value}
    (ran : (condition a (.within c values)).run ps = .ok (f, ps')) : IsAtom (f.text fl) := by
  rw [condition] at ran
  cases values with
  | nil =>
    obtain ⟨rfl, _⟩ := run_pure_ok.mp ran
    exact isAtom_never
  | cons v values =>
    obtain ⟨column, _, resolved, ran⟩ := run_bind_ok.mp ran
    obtain ⟨table, rfl⟩ := columnToken_column resolved
    exact membership_atom (by simp) ran

theorem exists_condition_atom {sql : String} {params : List (String × Value)}
    (balanced : ∀ ps f ps', (raw a sql params).run ps = .ok (f, ps') →
      isBalanced (f.text fl) = true)
    (ran : (condition a (.exists sql params)).run ps = .ok (f, ps')) : IsAtom (f.text fl) := by
  rw [condition] at ran
  obtain ⟨query, _, inner, ran⟩ := run_bind_ok.mp ran
  obtain ⟨rfl, _⟩ := run_pure_ok.mp ran
  exact exists_atom (balanced _ _ _ inner)

end Leaves

end TreeQuery.Sql
