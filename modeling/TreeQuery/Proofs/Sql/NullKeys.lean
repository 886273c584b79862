import TreeQuery.Proofs.Cursor
import TreeQuery.Proofs.Sql.Keyset

/-!
Keyset pages of sort keys with nulls. The order of a statement gives nulls a place, before or after
all values, but nothing is known of a comparison with one. So the condition of a page leaves out
rows past the cursor, unless values tell them from the cursor before any null does.
-/

namespace TreeQuery.Sql

open Plan (KeysetPage)

/-- How a null compares with a value in an ascending order. -/
def Flavor.nullOrder : Flavor → Ordering
  | .postgresql => .gt
  | .sqlite => .lt

namespace ColumnOrder

/-- The order of cells that may be null. In an order nulls are equal to each other. -/
def withNulls (order : ColumnOrder) (fl : Flavor) : ColumnOrder := fun source v w =>
  match v.isNull, w.isNull with
  | true, true => .eq
  | true, false => fl.nullOrder
  | false, true => fl.nullOrder.swap
  | false, false => order source v w

/-- Neither of two tuples has a null up to the first column in which they differ. -/
def ToldByValues (order : ColumnOrder) : List OrderTerm → List Value → List Value → Prop
  | o :: os, v :: vs, w :: ws => v.isNull = false ∧ w.isNull = false ∧
      (order o.source v w = .eq → order.ToldByValues os vs ws)
  | _, _, _ => True

variable {order : ColumnOrder} {ρ : Record}

theorem withNulls_of_values (fl : Flavor) (source : String) {v w : Value} (known : v.isNull = false)
    (known' : w.isNull = false) : order.withNulls fl source v w = order source v w := by
  rw [withNulls, known, known']

/-- Whatever is compared with a null, or is a null that is compared, remains unknown. -/
theorem truth_compared_null {o : OrderTerm} {v : Value} (position : Nat)
    (unknown : (ρ o.source).isNull = true ∨ v.isNull = true) {op : String}
    (compares : op = ">" ∨ op = "<" ∨ op = "=") : order.truth ρ
      (CursorTerm.compared ⟨o.table, o.column, o.direction, .param position v⟩ op) = none := by
  rw [OrderTerm.source] at unknown
  rcases compares with rfl | rfl | rfl <;> rcases unknown with cell | value <;>
    simp [CursorTerm.compared, truth, comparison?, *]

end ColumnOrder

theorem Direction.applied_eq_eq {d : Direction} {o : Ordering} : d.applied o = .eq ↔ o = .eq := by
  cases d <;> cases o <;> simp [Direction.applied]

section Truth

variable {order : ColumnOrder} {ρ : Record} {cs : List CursorTerm} {os : List OrderTerm}
variable {vs : List Value}

theorem truth_strict_null {o : OrderTerm} {v : Value} (position : Nat)
    (unknown : (ρ o.source).isNull = true ∨ v.isNull = true) : order.truth ρ
      (CursorTerm.strict ⟨o.table, o.column, o.direction, .param position v⟩) = none := by
  apply ColumnOrder.truth_compared_null position unknown
  cases o.direction <;> simp

/-- A row is past a tuple, nulls and all, and is told from it by values. -/
theorem Compares.eval_nulls (h : Compares cs os vs) (full : cs ≠ []) (fl : Flavor) :
    (pastFormula cs).eval (order.truth ρ) = some true ↔
      (order.withNulls fl).tuples os (ρ.tuple os) vs = .gt ∧
        order.ToldByValues os (ρ.tuple os) vs := by
  induction h with
  | nil => exact absurd rfl full
  | @cons cs os vs o v position later inductionHypothesis =>
    rw [Record.tuple, List.map_cons, ColumnOrder.tuples, ColumnOrder.ToldByValues,
      Ordering.then_eq_gt]
    by_cases unknown : (ρ o.source).isNull = true ∨ v.isNull = true
    · -- a null makes this column's comparisons unknown, and with them all that hangs on them
      have strict : order.truth ρ (CursorTerm.strict ⟨o.table, o.column, o.direction,
          .param position v⟩) = none := truth_strict_null position unknown
      have equal := order.truth_compared_null position unknown (.inr (.inr rfl))
      constructor
      · intro selected
        rcases eq_or_ne cs [] with rfl | more
        · simp [pastFormula, Formula.eval, strict] at selected
        · rw [pastFormula_cons _ more, Formula.eval, Formula.disjoin_eq_true, Formula.eval, strict,
            Formula.eval, Formula.conjoin_eq_true, Formula.eval, CursorTerm.equal, equal] at selected
          simp at selected
      · rintro ⟨-, cell, value, -⟩
        simp [cell, value] at unknown
    · obtain ⟨cell, value⟩ : (ρ o.source).isNull = false ∧ v.isNull = false := by
        simpa using unknown
      have strict := truth_strict order position value cell
      have equal := truth_equal order position value cell
      rw [order.withNulls_of_values fl o.source cell value]
      rcases eq_or_ne cs [] with rfl | more
      · cases later
        simp [pastFormula, Formula.eval, strict, ColumnOrder.tuples, ColumnOrder.ToldByValues, cell,
          value]
      · rw [pastFormula_cons _ more, Formula.eval, Formula.disjoin_eq_true, Formula.eval, strict,
          Formula.eval, Formula.conjoin_eq_true, Formula.eval, equal, inductionHypothesis more]
        have apart : o.direction.applied (order o.source (ρ o.source) v) = .gt →
            order o.source (ρ o.source) v ≠ .eq := by
          intro past same
          rw [Direction.applied_eq_eq.mpr same] at past
          cases past
        simp only [Direction.applied_eq_eq, cell, value, true_and, Record.tuple] at apart ⊢
        constructor
        · rintro (past | ⟨same, later, told⟩)
          · exact ⟨.inl past, fun same => absurd same (apart past)⟩
          · exact ⟨.inr ⟨same, later⟩, fun _ => told⟩
        · rintro ⟨past | ⟨same, later⟩, told⟩
          · exact .inl past
          · exact .inr ⟨same, later, told same⟩

end Truth

variable {vs : List Value}

/-- The condition of a keyset page, whatever accepted cursor it is after, is true of a row if and
only if the row is strictly past the cursor in the page's order, nulls in their places, and values
tell it from the cursor. -/
theorem cursorCondition_nulls (order : ColumnOrder) {p : KeysetPage} (full : p.key ≠ [])
    {cursor : String} (accepted : Cursor.toKeyset cursor p.key = .ok vs) (given : p.cursor = some vs)
    (ps : Params) : ∃ condition formula ps',
      (cursorCondition (.keyset p)).run ps = .ok ([condition], ps') ∧
      Reads .operand condition formula ∧ read? condition = some formula ∧
      ∀ (fl : Flavor) (ρ : Record), formula.eval (order.truth ρ) = some true ↔
        (order.withNulls fl).tuples (pagingOrder (.keyset p))
          (ρ.tuple (pagingOrder (.keyset p))) vs = .gt ∧
        order.ToldByValues (pagingOrder (.keyset p)) (ρ.tuple (pagingOrder (.keyset p))) vs := by
  obtain ⟨cs, ps', run, compares⟩ := cursorTerms_run (p := p) (Cursor.toKeyset_length accepted) ps
  have reads := compares.reads
  refine ⟨pastCursor cs, pastFormula cs, ps', ?_, reads, read?_of_reads (.all (.one reads)), ?_⟩
  · rw [cursorCondition, given]
    exact run_bind_ok.mpr ⟨cs, ps', run, run_pure_ok.mpr ⟨rfl, rfl⟩⟩
  · have nonempty : cs ≠ [] := by
      rintro rfl
      generalize hos : p.key.map _ = os at compares
      cases compares
      exact full (List.map_eq_nil_iff.mp hos)
    exact fun fl ρ => compares.eval_nulls nonempty fl

/-- The page of books before one that stands on no shelf. -/
def unshelvedPage : KeysetPage := { booksPage with cursor := some [.int 2001, .null, .int 7] }

/-- The cursor of a book by the values of its sort key. -/
def bookCursor (value : SortColumn → Value) : String :=
  Cursor.ofFields (booksPage.key.map (fun c => (c.name, value c)))

/-- A book of a year that stands on no shelf. -/
def unshelvedBook (year number : Int64) : Record := fun source =>
  if source = qualified "books" "year" then .int year
  else if source = qualified "books" "shelf" then .null
  else .int number

/-- The values of the book 7 of 2001, which stands on no shelf. -/
def unshelvedValue (c : SortColumn) : Value :=
  if c.name = "year" then .int 2001 else if c.name = "shelf" then .null else .int 7

theorem unshelved_accepted : Cursor.toKeyset (bookCursor unshelvedValue) unshelvedPage.key =
    .ok [.int 2001, .null, .int 7] := by
  have converts : ∀ c ∈ booksPage.key, c.type.convert? (unshelvedValue c) =
      some (unshelvedValue c) := by
    simp only [booksPage, List.forall_mem_cons]
    exact ⟨rfl, rfl, rfl, by simp⟩
  exact Cursor.toKeyset_ofFields (by decide) (by decide) converts

theorem cursorCondition_nulls_unshelved : ∃ condition formula ps',
    Cursor.toKeyset (bookCursor unshelvedValue) unshelvedPage.key =
      .ok [.int 2001, .null, .int 7] ∧
    (cursorCondition (.keyset unshelvedPage)).run .empty = .ok ([condition], ps') ∧
    read? condition = some formula ∧
    formula.eval (ColumnOrder.integers.truth (unshelvedBook 2002 3)) = some true ∧
    formula.eval (ColumnOrder.integers.truth (unshelvedBook 2001 9)) ≠ some true := by
  obtain ⟨condition, formula, ps', run, _, reads, past⟩ :=
    cursorCondition_nulls .integers (p := unshelvedPage) (by decide) unshelved_accepted rfl .empty
  refine ⟨condition, formula, ps', unshelved_accepted, run, reads, ?_, ?_⟩
  · rw [past .postgresql]
    exact ⟨by decide, rfl, rfl, fun same => absurd same (by decide)⟩
  · rw [ne_eq, past .postgresql]
    rintro ⟨-, told⟩
    obtain ⟨-, -, later⟩ := told
    obtain ⟨unknown, -, -⟩ := later (by decide)
    cases unknown

/-- The book 9 of 2001 is past the cursor as well, in both flavors' orders, and is left out. -/
theorem cursorCondition_loses_unshelved : ∃ condition formula ps',
    Cursor.toKeyset (bookCursor unshelvedValue) unshelvedPage.key =
      .ok [.int 2001, .null, .int 7] ∧
    (cursorCondition (.keyset unshelvedPage)).run .empty = .ok ([condition], ps') ∧
    read? condition = some formula ∧
    (ColumnOrder.integers.withNulls .postgresql).tuples (pagingOrder (.keyset unshelvedPage))
      ((unshelvedBook 2001 9).tuple (pagingOrder (.keyset unshelvedPage)))
      [.int 2001, .null, .int 7] = .gt ∧
    (ColumnOrder.integers.withNulls .sqlite).tuples (pagingOrder (.keyset unshelvedPage))
      ((unshelvedBook 2001 9).tuple (pagingOrder (.keyset unshelvedPage)))
      [.int 2001, .null, .int 7] = .gt ∧
    formula.eval (ColumnOrder.integers.truth (unshelvedBook 2001 9)) = none := by
  exact ⟨_, _, _, unshelved_accepted, rfl, rfl, by decide, by decide, rfl⟩

end TreeQuery.Sql
