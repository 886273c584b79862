import TreeQuery.Proofs.Sql.Keyset
import TreeQuery.Proofs.Sql.Tokens

/-!
The tokens in the parts of a statement that may be placeholders, and changing them in place. What
a statement writes around its placeholders is the same whatever they are changed to.
-/

namespace TreeQuery.Sql

def Token.isParam : Token → Bool
  | .param _ _ => true
  | _ => false

namespace Token

@[simp] theorem isParam_param (position : Nat) (v : Value) : (param position v).isParam = true := rfl

@[simp] theorem isParam_sql (s : String) : (sql s).isParam = false := rfl

@[simp] theorem isParam_column (t c : String) : (column t c).isParam = false := rfl

@[simp] theorem isParam_label (n : String) : (label n).isParam = false := rfl

@[simp] theorem isParam_lparen : lparen.isParam = false := rfl

@[simp] theorem isParam_rparen : rparen.isParam = false := rfl

@[simp] theorem isParam_and : and.isParam = false := rfl

@[simp] theorem isParam_or : or.isParam = false := rfl

@[simp] theorem isParam_not : not.isParam = false := rfl

end Token

/-- Parts of statements in which placeholders can stand. -/
class Worded (α : Type) where
  words : α → Fragment
  map : (Token → Token) → α → α

open Worded (words map)

instance : Worded Token := ⟨fun t => [t], fun f t => f t⟩

instance {α : Type} [Worded α] : Worded (List α) :=
  ⟨fun l => l.flatMap words, fun f l => l.map (map f)⟩

instance {α : Type} [Worded α] : Worded (Option α) :=
  ⟨fun o => o.toList.flatMap words, fun f o => o.map (map f)⟩

instance : Worded CursorTerm := ⟨fun c => [c.value], fun f c => { c with value := f c.value }⟩

instance : Worded InnerJoin := ⟨fun j => j.on, fun f j => { j with on := map f j.on }⟩

instance : Worded Page :=
  ⟨fun p => words p.inner ++ words p.conditions,
    fun f p => { p with inner := map f p.inner, conditions := map f p.conditions }⟩

instance : Worded TableItem where
  words
    | .base _ _ => []
    | .leftJoin _ _ _ on => words on
    | .scope _ values => words values
    | .page p => words p
    | .lateral _ p on => words p ++ words on
  map f
    | .base t a => .base t a
    | .leftJoin t a withAs on => .leftJoin t a withAs (map f on)
    | .scope c values => .scope c (map f values)
    | .page p => .page (map f p)
    | .lateral outer p on => .lateral outer (map f p) (map f on)

/-- Nothing is bound in what a statement selects and orders by. -/
instance : Worded Part :=
  ⟨fun p => words p.tables ++ words p.conditions,
    fun f p => { p with tables := map f p.tables, conditions := map f p.conditions }⟩

/-- No placeholder stands in what is selected. -/
def Part.SelectsPlain (p : Part) : Prop := ∀ i ∈ p.items, ∀ t ∈ i.source, t.isParam = false

section Words

variable {α : Type} [Worded α]

@[simp] theorem words_token (t : Token) : words t = [t] := rfl

@[simp] theorem words_nil : words ([] : List α) = [] := rfl

@[simp] theorem words_cons (a : α) (l : List α) : words (a :: l) = words a ++ words l := rfl

@[simp] theorem words_append (l m : List α) : words (l ++ m) = words l ++ words m :=
  List.flatMap_append

@[simp] theorem words_fragment (f : Fragment) : words f = f := List.flatMap_singleton' f

@[simp] theorem words_part_append (p q : Part) :
    words (p ++ q) = words p.tables ++ words q.tables ++ (words p.conditions ++ words q.conditions) := by
  change words (p.tables ++ q.tables) ++ words (p.conditions ++ q.conditions) = _
  rw [words_append, words_append]

variable (f : Token → Token)

@[simp] theorem map_token (t : Token) : map f t = f t := rfl

@[simp] theorem map_nil : map f ([] : List α) = [] := rfl

@[simp] theorem map_cons (a : α) (l : List α) : map f (a :: l) = map f a :: map f l := rfl

@[simp] theorem map_append (l m : List α) : map f (l ++ m) = map f l ++ map f m :=
  List.map_append

@[simp] theorem map_none : map f (none : Option α) = none := rfl

@[simp] theorem map_some (a : α) : map f (some a) = some (map f a) := rfl

@[simp] theorem map_part_append (p q : Part) : map f (p ++ q) = map f p ++ map f q := by
  change Part.mk _ (map f (p.tables ++ q.tables)) (map f (p.conditions ++ q.conditions)) _ = _
  rw [map_append, map_append]
  rfl

end Words

section Between

variable {t : Token} {n : Nat} {v : Value}

theorem between_cons (t : Token) (f : Fragment) {fs : List Fragment} (full : fs ≠ []) :
    between t (f :: fs) = f ++ t :: between t fs := by
  cases fs with
  | nil => exact absurd rfl full
  | cons g fs => rfl

theorem mem_between (plain : t.isParam = false) (fs : List Fragment) :
    .param n v ∈ between t fs ↔ .param n v ∈ words fs := by
  have apart : Token.param n v ≠ t := by
    rintro rfl
    cases plain
  induction fs with
  | nil => rfl
  | cons f fs inductionHypothesis =>
    by_cases full : fs = []
    · simp [full, between]
    · simp [between_cons t f full, inductionHypothesis, apart]

theorem plain_between (plain : t.isParam = false) {fs : List Fragment}
    (h : ∀ f ∈ fs, ∀ u ∈ f, u.isParam = false) : ∀ u ∈ between t fs, u.isParam = false := by
  intro u within
  cases u with
  | param n v =>
    rw [mem_between plain] at within
    obtain ⟨f, hf, within⟩ := List.mem_flatMap.mp within
    rw [words_fragment] at within
    exact h f hf _ within
  | _ => rfl

variable (f : Token → Token)

theorem map_between (t : Token) (fs : List Fragment) :
    map f (between t fs) = between (f t) (map f fs) := by
  induction fs with
  | nil => rfl
  | cons g fs inductionHypothesis =>
    by_cases full : fs = []
    · simp [full, between]
    · have more : map f fs ≠ [] := by simpa [map] using full
      rw [between_cons t g full, map_append, map_cons, map_cons, inductionHypothesis,
        between_cons _ _ more]
      rfl

end Between

section Cursors

variable {n : Nat} {v : Value}

/-- A cursor's values all stand in the condition, all but the last one twice. -/
theorem mem_pastCursor (cs : List CursorTerm) :
    .param n v ∈ pastCursor cs ↔ .param n v ∈ words cs := by
  have compared (c : CursorTerm) (op : String) : .param n v ∈ c.compared op ↔ .param n v = c.value := by
    simp [CursorTerm.compared]
  induction cs with
  | nil => simp [pastCursor]
  | cons c cs inductionHypothesis =>
    by_cases full : cs = []
    · subst full
      exact (compared c _).trans List.mem_singleton.symm
    · rw [pastCursor_cons c full]
      simp [parenthesised, CursorTerm.strict, CursorTerm.equal, compared, inductionHypothesis, words]

end Cursors

/-- Changes placeholders only. -/
def FixesPlain (f : Token → Token) : Prop := ∀ t, t.isParam = false → f t = t

theorem mem_of_mem_eraseDupsBy {α : Type} {r : α → α → Bool} {l : List α} {a : α}
    (h : a ∈ l.eraseDupsBy r) : a ∈ l := by
  generalize hn : l.length = n
  induction n using Nat.strongRecOn generalizing l with
  | ind n inductionHypothesis =>
    cases l with
    | nil => exact h
    | cons b l =>
      rw [List.eraseDupsBy_cons, List.mem_cons] at h
      rcases h with rfl | later
      · exact List.mem_cons_self
      · have shorter := List.length_filter_le (fun c => decide (r c b = false)) l
        rw [List.length_cons] at hn
        have within := inductionHypothesis _ (by omega) later rfl
        exact List.mem_cons_of_mem _ (List.mem_filter.mp within).1

section Members

variable {fl : Flavor} {n : Nat} {v : Value}

theorem mem_orderTokens (os : List OrderTerm) : .param n v ∉ orderTokens os := by
  rw [orderTokens, commaSeparated, mem_between rfl]
  simp [words, OrderTerm.tokens]

theorem mem_conditionTokens (introduction : String) (fs : List Fragment) :
    .param n v ∈ conditionTokens introduction fs ↔ .param n v ∈ words fs := by
  cases fs with
  | nil => simp [conditionTokens]
  | cons f fs =>
    change .param n v ∈ .sql _ :: between .and (f :: fs) ↔ _
    rw [List.mem_cons, mem_between rfl]
    simp

variable (fl) in
theorem Page.mem_tokens (p : Page) : .param n v ∈ p.tokens fl ↔ .param n v ∈ words p := by
  rcases p with ⟨table, label, counted, inner, conditions, order, limit, offset⟩
  change _ ↔ .param n v ∈ words inner ++ words conditions
  unfold Page.tokens
  cases counted <;> cases inner <;> cases offset <;>
    simp [mem_conditionTokens, mem_orderTokens, InnerJoin.tokens, words]

variable (fl) in
theorem TableItem.mem_tokens (t : TableItem) :
    .param n v ∈ t.tokens fl ↔ .param n v ∈ words t := by
  cases t with
  | base t a => simp [tokens, words]
  | leftJoin t a withAs on => simp [tokens, words]
  | scope c values =>
    have rows : .param n v ∈ words (values.map (fun t => [Token.lparen, t, .rparen])) ↔
        .param n v ∈ values := by
      simp [words]
    have written : .param n v ∈ commaSeparated (values.map (fun t => [Token.lparen, t, .rparen])) ↔
        .param n v ∈ values := by
      rw [commaSeparated, mem_between rfl, rows]
    simp [tokens, words, written]
  | page p =>
    change .param n v ∈ .sql _ :: p.tokens fl ↔ .param n v ∈ words p
    rw [← Page.mem_tokens fl p]
    simp
  | lateral outer p on =>
    change .param n v ∈ .sql _ :: p.tokens fl ++ .sql _ :: on ↔ .param n v ∈ words p ++ words on
    rw [List.mem_append, List.mem_append, ← Page.mem_tokens fl p]
    simp

/-- The placeholders of a statement are those in its tables and conditions. -/
theorem Part.mem_tokens {p : Part} (plain : p.SelectsPlain) :
    .param n v ∈ p.tokens fl ↔ .param n v ∈ words p := by
  have items : .param n v ∉ words ((p.selected fl).map SelectItem.tokens) := by
    intro within
    obtain ⟨f, hf, within⟩ := List.mem_flatMap.mp within
    obtain ⟨i, selected, rfl⟩ := List.mem_map.mp hf
    rw [words_fragment] at within
    rcases List.mem_append.mp within with source | output
    · have contrary := plain i (mem_of_mem_eraseDupsBy selected) _ source
      cases contrary
    · simp at output
  have tables : .param n v ∈ p.tables.flatMap (fun t => .sql "\n" :: t.tokens fl) ↔
      .param n v ∈ words p.tables := by
    generalize p.tables = items
    induction items with
    | nil => rfl
    | cons t items inductionHypothesis =>
      rw [List.flatMap_cons, List.mem_append, inductionHypothesis, words_cons, List.mem_append,
        ← TableItem.mem_tokens fl t]
      simp
  have orders : .param n v ∉
      if p.orders.isEmpty then [] else .sql "\nORDER BY " :: orderTokens p.orders := by
    split
    · exact List.not_mem_nil
    · simp [mem_orderTokens]
  have selected : .param n v ∉ .sql "SELECT\n  " ::
      between (.sql ",\n  ") ((p.selected fl).map SelectItem.tokens) := by
    rw [List.mem_cons, mem_between rfl]
    simp [items]
  change .param n v ∈ .sql _ :: between _ _ ++ _ ++ _ ++ _ ↔
    .param n v ∈ words p.tables ++ words p.conditions
  rw [List.mem_append, List.mem_append, List.mem_append, List.mem_append, mem_conditionTokens, tables]
  constructor
  · rintro (((here | here) | here) | here)
    · exact absurd here selected
    · exact .inl here
    · exact .inr here
    · exact absurd here orders
  · rintro (here | here)
    · exact .inl (.inl (.inr here))
    · exact .inl (.inr here)

end Members

section Fixed

variable {f : Token → Token} (fixed : FixesPlain f) {fl : Flavor}

include fixed

theorem map_plain {g : Fragment} (plain : ∀ t ∈ g, t.isParam = false) : map f g = g := by
  induction g with
  | nil => rfl
  | cons t g inductionHypothesis =>
    have ⟨here, later⟩ := List.forall_mem_cons.mp plain
    rw [map_cons, map_token, fixed t here, inductionHypothesis later]

theorem map_pastCursor (cs : List CursorTerm) : map f (pastCursor cs) = pastCursor (map f cs) := by
  have compared (c : CursorTerm) (op : String) :
      map f (c.compared op) = (map f c : CursorTerm).compared op := by
    simp [CursorTerm.compared, map, fixed (.column _ _) rfl, fixed (.sql _) rfl]
  induction cs with
  | nil => simp [pastCursor, fixed (.sql _) rfl]
  | cons c cs inductionHypothesis =>
    by_cases full : cs = []
    · subst full
      exact compared c _
    · have more : map f cs ≠ [] := by simpa [map] using full
      rw [pastCursor_cons c full, map_cons, pastCursor_cons _ more]
      simp only [parenthesised, CursorTerm.strict, CursorTerm.equal, List.cons_append, map_cons,
        map_append, map_token, map_nil, compared, inductionHypothesis, fixed .lparen rfl,
        fixed .rparen rfl, fixed .or rfl, fixed .and rfl]
      rfl

theorem map_commaSeparated (fs : List Fragment) :
    map f (commaSeparated fs) = commaSeparated (map f fs) := by
  rw [commaSeparated, commaSeparated, map_between, fixed (.sql _) rfl]

theorem map_orderTokens (os : List OrderTerm) : map f (orderTokens os) = orderTokens os := by
  have terms : map f (os.map OrderTerm.tokens) = os.map OrderTerm.tokens := by
    simp [map, OrderTerm.tokens, Function.comp_def, fixed (.column _ _) rfl, fixed (.sql _) rfl]
  rw [orderTokens, map_commaSeparated fixed, terms]

theorem map_conditionTokens (introduction : String) (fs : List Fragment) :
    map f (conditionTokens introduction fs) = conditionTokens introduction (map f fs) := by
  cases fs with
  | nil => rfl
  | cons g fs =>
    change map f (.sql introduction :: between .and (g :: fs)) = .sql introduction ::
      between .and (map f (g :: fs))
    rw [map_cons, map_between, map_token, fixed .and rfl, fixed (.sql _) rfl]

theorem InnerJoin.map_tokens (j : InnerJoin) : map f j.tokens = (map f j : InnerJoin).tokens := by
  change map f (.sql _ :: .label _ :: .sql _ :: j.on) = .sql _ :: .label _ :: .sql _ :: map f j.on
  simp only [map_cons, map_token, fixed (.sql _) rfl, fixed (.label _) rfl]
  rfl

theorem Page.map_tokens (p : Page) : map f (p.tokens fl) = (map f p : Page).tokens fl := by
  rcases p with ⟨table, label, counted, inner, conditions, order, limit, offset⟩
  change _ = Page.tokens fl ⟨table, label, counted, map f inner, map f conditions, order, limit, offset⟩
  unfold Page.tokens
  cases counted <;> cases inner <;> cases offset <;>
    simp [map_conditionTokens fixed, map_orderTokens fixed, InnerJoin.map_tokens fixed,
      fixed (.sql _) rfl, fixed (.label _) rfl]

theorem TableItem.map_tokens (t : TableItem) :
    map f (t.tokens fl) = (map f t : TableItem).tokens fl := by
  cases t with
  | base t a => exact map_plain fixed (by simp [tokens])
  | leftJoin t a withAs on =>
    change map f (.sql _ :: .label _ :: .sql _ :: on) = .sql _ :: .label _ :: .sql _ :: map f on
    simp only [map_cons, map_token, fixed (.sql _) rfl, fixed (.label _) rfl]
  | scope c values =>
    have rows : map f (values.map (fun t => [Token.lparen, t, .rparen])) =
        (map f values).map (fun t => [Token.lparen, t, .rparen]) := by
      induction values with
      | nil => rfl
      | cons v values inductionHypothesis =>
        simp only [List.map_cons, map_cons, map_nil, map_token, inductionHypothesis,
          fixed .lparen rfl, fixed .rparen rfl]
    let closing : Fragment := [.sql ") ", .label scopeLabel, .lparen, .label c, .rparen]
    have closed : map f closing = closing := map_plain fixed (by simp [closing])
    change map f (.sql _ :: commaSeparated _ ++ closing) = .sql _ :: commaSeparated _ ++ closing
    rw [map_append, map_cons, map_token, fixed (.sql _) rfl, map_commaSeparated fixed, rows, closed]
  | page p =>
    change map f (.sql _ :: p.tokens fl) = .sql _ :: (map f p : Page).tokens fl
    rw [map_cons, map_token, fixed (.sql _) rfl, Page.map_tokens fixed]
  | lateral outer p on =>
    change map f (.sql _ :: p.tokens fl ++ .sql _ :: on) =
      .sql _ :: (map f p : Page).tokens fl ++ .sql _ :: map f on
    rw [map_append, map_cons, map_cons, map_token, map_token, fixed (.sql _) rfl,
      fixed (.sql _) rfl, Page.map_tokens fixed]

/-- Changing the placeholders in the parts of a statement changes them in its tokens. -/
theorem Part.map_tokens {p : Part} (plain : p.SelectsPlain) :
    map f (p.tokens fl) = (map f p : Part).tokens fl := by
  have tables (l : List TableItem) : map f (l.flatMap (fun t => .sql "\n" :: t.tokens fl)) =
      (map f l).flatMap (fun t => .sql "\n" :: t.tokens fl) := by
    induction l with
    | nil => rfl
    | cons t l inductionHypothesis =>
      rw [List.flatMap_cons, map_append, inductionHypothesis, map_cons, map_cons, map_token,
        fixed (.sql _) rfl, TableItem.map_tokens fixed, List.flatMap_cons]
  have items : map f ((p.selected fl).map SelectItem.tokens) =
      (p.selected fl).map SelectItem.tokens := by
    have each (i : SelectItem) (selected : i ∈ p.selected fl) : map f i.tokens = i.tokens := by
      apply map_plain fixed
      intro t ht
      rcases List.mem_append.mp ht with source | output
      · exact plain i (mem_of_mem_eraseDupsBy selected) t source
      · rcases List.mem_cons.mp output with rfl | output
        · rfl
        · obtain rfl := List.mem_singleton.mp output
          rfl
    calc map f ((p.selected fl).map SelectItem.tokens)
        = (p.selected fl).map (fun i => map f i.tokens) := List.map_map
      _ = (p.selected fl).map SelectItem.tokens := List.map_congr_left each
  have orders : map f (if p.orders.isEmpty then [] else .sql "\nORDER BY " :: orderTokens p.orders) =
      if p.orders.isEmpty then [] else .sql "\nORDER BY " :: orderTokens p.orders := by
    split
    · rfl
    · rw [map_cons, map_orderTokens fixed, map_token, fixed (.sql _) rfl]
  change map f (.sql _ :: between _ _ ++ _ ++ _ ++ _) =
    .sql _ :: between _ _ ++ (map f p.tables).flatMap _ ++
      conditionTokens _ (map f p.conditions) ++ _
  rw [map_append, map_append, map_append, map_cons, map_between, items, tables,
    map_conditionTokens fixed, orders, map_token, fixed (.sql _) rfl, fixed (.sql _) rfl]
  rfl

end Fixed

end TreeQuery.Sql
