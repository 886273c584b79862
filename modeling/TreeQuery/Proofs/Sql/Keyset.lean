import TreeQuery.Proofs.Sql.Reading
import TreeQuery.Proofs.Success
import TreeQuery.Sql.Page

/-!
The condition of a keyset page holds of the rows strictly past the cursor, in the order in which
the page's rows are taken. The columns of a table are ordered by the database, each in its own way.
-/

namespace TreeQuery

/-- How an ordering counts in a direction. -/
def Direction.applied : Direction → Ordering → Ordering
  | .ascending, o => o
  | .descending, o => o.swap

namespace Sql

open Plan (KeysetPage Paging)

/-- How the values of a column compare. Columns go by the text that stands for them. -/
abbrev ColumnOrder := String → Value → Value → Ordering

/-- The values of a row of the tables that a statement reads, by the texts of its columns. -/
abbrev Record := String → Value

def OrderTerm.source (o : OrderTerm) : String := qualified o.table o.column

def Record.tuple (ρ : Record) (os : List OrderTerm) : List Value := os.map (fun o => ρ o.source)

namespace ColumnOrder

/-- The comparison of two tuples by the terms of an order, the earlier ones first. -/
def tuples (order : ColumnOrder) : List OrderTerm → List Value → List Value → Ordering
  | o :: os, v :: vs, w :: ws =>
    (o.direction.applied (order o.source v w)).then (order.tuples os vs ws)
  | _, _, _ => .eq

/-- A comparison in a condition: a column, an outcome, and the value to compare with. -/
def comparison? : Fragment → Option (String × Ordering × Value)
  | [.column t c, .sql " > (", .param _ v, .sql ")"] => some (qualified t c, .gt, v)
  | [.column t c, .sql " < (", .param _ v, .sql ")"] => some (qualified t c, .lt, v)
  | [.column t c, .sql " = (", .param _ v, .sql ")"] => some (qualified t c, .eq, v)
  | _ => none

/-- The truth of a comparison in a row. Nothing is known of a null. -/
def truth (order : ColumnOrder) (ρ : Record) (words : Fragment) : Option Bool :=
  (comparison? words).bind (fun (source, outcome, v) =>
    if (ρ source).isNull || v.isNull then none else some (order source (ρ source) v == outcome))

end ColumnOrder

/-- The terms that compare the columns of an order with one value each. -/
inductive Compares : List CursorTerm → List OrderTerm → List Value → Prop
  | nil : Compares [] [] []
  | cons {cs : List CursorTerm} {os : List OrderTerm} {vs : List Value} (o : OrderTerm) (v : Value)
      (position : Nat) (later : Compares cs os vs) :
      Compares (⟨o.table, o.column, o.direction, .param position v⟩ :: cs) (o :: os) (v :: vs)

/-- A row is past a tuple if an earlier column is, or is equal and a later one is. -/
def pastFormula : List CursorTerm → Formula
  | [] => .atom [.sql "TRUE"]
  | [c] => .atom c.strict
  | c :: r => .or (.atom c.strict) (.and (.atom c.equal) (pastFormula r))

theorem reads_compared {c : CursorTerm} (word : c.value.isWord = true) (op : String) :
    Reads .operand (c.compared op) (.atom (c.compared op)) := by
  apply Reads.words
  · simp [CursorTerm.compared]
  · simp only [CursorTerm.compared, List.forall_mem_cons]
    exact ⟨rfl, rfl, word, rfl, by simp⟩

variable {cs : List CursorTerm} {os : List OrderTerm} {vs : List Value}

theorem pastCursor_cons (c : CursorTerm) (full : cs ≠ []) :
    pastCursor (c :: cs) =
      parenthesised (c.strict ++ .or :: parenthesised (c.equal ++ .and :: pastCursor cs)) := by
  obtain ⟨c', cs, rfl⟩ := List.exists_cons_of_ne_nil full
  simp [pastCursor, parenthesised]

theorem pastFormula_cons (c : CursorTerm) (full : cs ≠ []) :
    pastFormula (c :: cs) = .or (.atom c.strict) (.and (.atom c.equal) (pastFormula cs)) := by
  obtain ⟨c', cs, rfl⟩ := List.exists_cons_of_ne_nil full
  rfl

theorem Compares.reads (h : Compares cs os vs) :
    Reads .operand (pastCursor cs) (pastFormula cs) := by
  induction h with
  | nil => exact .words (by simp [pastCursor]) (by simp [pastCursor, Token.isWord])
  | @cons cs os vs o v position later inductionHypothesis =>
    rcases eq_or_ne cs [] with rfl | full
    · exact reads_compared rfl _
    · rw [pastCursor_cons _ full, pastFormula_cons _ full]
      apply Reads.group
      apply Reads.or (.all (.one (reads_compared rfl _)))
      apply Reads.one
      apply Reads.group
      exact .all (.and (.one (reads_compared rfl _)) inductionHypothesis)

section Truth

variable {order : ColumnOrder} {ρ : Record}

theorem truth_equal (order : ColumnOrder) {o : OrderTerm} {v : Value} (position : Nat)
    (known : v.isNull = false)
    (cell : (ρ o.source).isNull = false) :
    order.truth ρ (CursorTerm.equal ⟨o.table, o.column, o.direction, .param position v⟩) =
      some true ↔ o.direction.applied (order o.source (ρ o.source) v) = .eq := by
  rw [OrderTerm.source] at cell ⊢
  cases o.direction <;>
    simp [CursorTerm.equal, CursorTerm.compared, ColumnOrder.truth, ColumnOrder.comparison?,
      Direction.applied, known, cell]

theorem truth_strict (order : ColumnOrder) {o : OrderTerm} {v : Value} (position : Nat)
    (known : v.isNull = false)
    (cell : (ρ o.source).isNull = false) :
    order.truth ρ (CursorTerm.strict ⟨o.table, o.column, o.direction, .param position v⟩) =
      some true ↔ o.direction.applied (order o.source (ρ o.source) v) = .gt := by
  rw [OrderTerm.source] at cell ⊢
  cases o.direction <;>
    simp [CursorTerm.strict, CursorTerm.compared, ColumnOrder.truth, ColumnOrder.comparison?,
      Direction.applied, known, cell]

theorem Compares.eval (h : Compares cs os vs) (full : cs ≠ []) (known : ∀ v ∈ vs, v.isNull = false)
    (cells : ∀ o ∈ os, (ρ o.source).isNull = false) :
    (pastFormula cs).eval (order.truth ρ) = some true ↔
      order.tuples os (ρ.tuple os) vs = .gt := by
  induction h with
  | nil => exact absurd rfl full
  | @cons cs os vs o v position later inductionHypothesis =>
    obtain ⟨value, known⟩ := List.forall_mem_cons.mp known
    obtain ⟨cell, cells⟩ := List.forall_mem_cons.mp cells
    have strict := truth_strict order position value cell
    have equal := truth_equal order position value cell
    rw [Record.tuple, List.map_cons, ColumnOrder.tuples, Ordering.then_eq_gt]
    rcases eq_or_ne cs [] with rfl | more
    · cases later
      simp [pastFormula, Formula.eval, strict, ColumnOrder.tuples]
    · rw [pastFormula_cons _ more, Formula.eval, Formula.disjoin_eq_true, Formula.eval, strict,
        Formula.eval, Formula.conjoin_eq_true, Formula.eval, equal,
        inductionHypothesis more known cells]
      rfl

end Truth

theorem bindValue_run (v : Value) (ps : Params) :
    (bindValue v).run ps = .ok (.param (ps.push v).1 v, (ps.push v).2) := rfl

theorem cursorTerms_run {p : KeysetPage} {key : SortKey} (width : vs.length = key.length)
    (ps : Params) : ∃ cs ps', (cursorTerms p key vs).run ps = .ok (cs, ps') ∧
      Compares cs (key.map (fun c => ⟨p.table, c.column, p.direction c⟩)) vs := by
  induction key generalizing vs ps with
  | nil =>
    obtain rfl := List.eq_nil_of_length_eq_zero width
    exact ⟨[], ps, rfl, .nil⟩
  | cons c key inductionHypothesis =>
    obtain ⟨v, vs, rfl⟩ := List.exists_cons_of_length_eq_add_one width
    obtain ⟨cs, ps', run, compares⟩ := inductionHypothesis (by simpa using width) (ps.push v).2
    refine ⟨_, ps', ?_, .cons ⟨p.table, c.column, p.direction c⟩ v (ps.push v).1 compares⟩
    apply run_bind_ok.mpr ⟨_, _, bindValue_run v ps, ?_⟩
    exact run_bind_ok.mpr ⟨cs, ps', run, run_pure_ok.mpr ⟨rfl, rfl⟩⟩

/-- The condition of a keyset page is an operand that stands apart from whatever else has to hold,
and it is true of the rows that come strictly after the cursor in the page's order. -/
theorem cursorCondition_past (order : ColumnOrder) {p : KeysetPage} (full : p.key ≠ [])
    (given : p.cursor = some vs) (width : vs.length = p.key.length)
    (known : ∀ v ∈ vs, v.isNull = false) (ps : Params) : ∃ condition formula ps',
      (cursorCondition (.keyset p)).run ps = .ok ([condition], ps') ∧
      Reads .operand condition formula ∧ read? condition = some formula ∧
      (∀ before after, read? (between .and (before ++ condition :: after)) =
        read? (between .and (before ++ parenthesised condition :: after))) ∧
      ∀ ρ : Record, (∀ o ∈ pagingOrder (.keyset p), (ρ o.source).isNull = false) →
        (formula.eval (order.truth ρ) = some true ↔
          order.tuples (pagingOrder (.keyset p)) (ρ.tuple (pagingOrder (.keyset p))) vs = .gt) := by
  obtain ⟨cs, ps', run, compares⟩ := cursorTerms_run (p := p) width ps
  have reads := compares.reads
  refine ⟨pastCursor cs, pastFormula cs, ps', ?_, reads, read?_of_reads (.all (.one reads)),
    fun before after => read?_between reads before after, ?_⟩
  · rw [cursorCondition, given]
    exact run_bind_ok.mpr ⟨cs, ps', run, run_pure_ok.mpr ⟨rfl, rfl⟩⟩
  · intro ρ cells
    have nonempty : cs ≠ [] := by
      rintro rfl
      generalize hos : p.key.map _ = os at compares
      cases compares
      exact full (List.map_eq_nil_iff.mp hos)
    exact compares.eval nonempty known cells

/-- Columns that hold integers. -/
def ColumnOrder.integers : ColumnOrder := fun _ =>
  compareOn (fun v => (v.int?.map Int64.toInt).getD 0)

/-- The page of books before a book, by year, the latest first, then by shelf and number. -/
def booksPage : KeysetPage where
  key := [⟨"year", "year", .descending, .any⟩, ⟨"shelf", "shelf", .ascending, .int⟩,
    ⟨"number", "number", .descending, .any⟩]
  table := "books"
  count := some 10
  backward := true
  cursor := some [.int 2001, .int 4, .int 7]

/-- A book of the cursor's year and shelf. -/
def bookBeside (number : Int64) : Record := fun source =>
  if source = qualified "books" "year" then .int 2001
  else if source = qualified "books" "shelf" then .int 4
  else .int number

theorem cursorCondition_past_books : ∃ condition formula ps',
    (cursorCondition (.keyset booksPage)).run .empty = .ok ([condition], ps') ∧
    read? condition = some formula ∧
    formula.eval (ColumnOrder.integers.truth (bookBeside 9)) = some true ∧
    formula.eval (ColumnOrder.integers.truth (bookBeside 5)) ≠ some true := by
  obtain ⟨condition, formula, ps', run, _, reads, _, past⟩ :=
    cursorCondition_past .integers (p := booksPage) (by decide) rfl rfl (by decide) .empty
  refine ⟨condition, formula, ps', run, reads, ?_, ?_⟩
  · exact (past (bookBeside 9) (by decide)).mpr (by decide)
  · rw [ne_eq, past (bookBeside 5) (by decide)]
    decide

end Sql

end TreeQuery
