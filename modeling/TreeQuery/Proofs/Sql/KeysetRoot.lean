import TreeQuery.Proofs.Connection.Keyset
import TreeQuery.Proofs.Sql.Answers
import TreeQuery.Proofs.Sql.RootPage

/-!
The statement of a root table that is paged by its sort key alone. Its rows are taken in the order
that the page is read in, and the statement leaves them in that order.
-/

namespace TreeQuery

open Plan (KeysetPage Leaves Node Table)

/-- A sort key as it is declared, for the columns of a table. -/
def SortKey.terms (label : String) (key : SortKey) : List Sql.OrderTerm :=
  key.map (fun c => ⟨label, c.column, c.direction⟩)

/-- The rows that qualify for a page, in the order in which the page is read: so many as the page
shows and one more, if there are. -/
def Plan.KeysetPage.read {α : Type} (p : KeysetPage) (rows : List α) : List α :=
  Sql.upTo (p.count.map (· + 1)) (if p.backward then rows.reverse else rows)

/-- A root table that is paged by its sort key, and neither filtered nor ordered in another way. -/
structure Plan.Table.KeysetRoot (t : Table) (key : SortKey) : Prop where
  paginate : t.paginate = true
  sortKey : t.sortKey = some key
  orderBy : t.orderBy = none
  filter : t.filter = []
  join : t.join = none
  junction : t.junction = none
  batch : t.batch = none

namespace Plan.Table.KeysetRoot

variable {t : Table} {key : SortKey}

theorem keyset? (root : t.KeysetRoot key) : t.keyset? = some (key, t.label) := by
  rw [Table.keyset?, root.sortKey]

theorem batchKeys? (root : t.KeysetRoot key) : t.batchKeys? = none := by
  rw [Table.batchKeys?, Table.junctionBatch?, root.batch, root.junction]
  rfl

theorem paged (root : t.KeysetRoot key) : t.PagedRoot :=
  ⟨root.paginate, root.join, root.junction, root.batch⟩

theorem paging (root : t.KeysetRoot key) {p : KeysetPage}
    (asked : t.keysetPage key t.label = .ok p) : t.paging = .ok (.keyset p) := by
  rw [Table.paging_keyset root.keyset?, asked]
  rfl

end Plan.Table.KeysetRoot

namespace Sql

variable {fl : Flavor} {t : Table} {children : List Node} {key : SortKey} {p : KeysetPage}

/-- A backward page is read against the order of its key. -/
theorem pagingOrder_keyset (p : KeysetPage) : pagingOrder (.keyset p) =
    if p.backward then (p.key.terms p.table).map OrderTerm.flip else p.key.terms p.table := by
  cases backward : p.backward with
  | false => simp [pagingOrder, KeysetPage.direction, SortKey.terms, backward]
  | true => simp [pagingOrder, KeysetPage.direction, SortKey.terms, OrderTerm.flip, backward]

theorem tableOrder_keysetRoot (root : t.KeysetRoot key) (asked : t.keysetPage key t.label = .ok p) :
    tableOrder t p.backward = pagingOrder (.keyset p) := by
  obtain ⟨hkey, htable⟩ := Table.keysetPage_key asked
  rw [tableOrder, root.orderBy, root.junction, root.sortKey, pagingOrder, hkey, htable]
  rfl

/-- A statement over one page of a table, in the order of the page. -/
structure PagesOnly (t : Table) (p : KeysetPage) (conditions : List Fragment) (part : Part) :
    Prop where
  tables : part.tables = [.page (pageOf t.name t.label none conditions (.keyset p))]
  conditions : part.conditions = []
  orders : part.orders = pagingOrder (.keyset p)

theorem statement_keysetRoot (fl : Flavor) (root : t.KeysetRoot key) (leaves : Leaves children)
    (asked : t.keysetPage key t.label = .ok p) {conditions : List Fragment} {ps : Params}
    (past : (cursorCondition (.keyset p)).run .empty = .ok (conditions, ps)) :
    ∃ st, statement fl (.table t children) none = .ok st ∧ st.params = ps ∧
      PagesOnly t p conditions st.part := by
  have unfiltered : (filter (.ofTable t.label) t.filter).run .empty = .ok ([], .empty) := by
    rw [root.filter]
    rfl
  obtain ⟨st, stated, bound, tables, plain, orders⟩ :=
    statement_pagedRoot root.paged leaves (root.paging asked) rfl unfiltered past
  exact ⟨st, stated, bound, tables, plain, orders.trans (tableOrder_keysetRoot root asked)⟩

/-- There is no statement without a page. -/
theorem keysetPage_of_statement (root : t.KeysetRoot key) {st : Statement}
    (stated : statement fl (.table t children) none = .ok st) :
    ∃ p, t.keysetPage key t.label = .ok p := by
  obtain ⟨_, ran, _⟩ := map_eq_ok.mp stated
  obtain ⟨_, _, own, _⟩ := run_bind_ok.mp ran
  obtain ⟨_, _, _, own⟩ := run_bind_ok.mp own
  obtain ⟨_, _, ordered, _⟩ := run_bind_ok.mp own
  simp only [orderPart, continues, root.paginate] at ordered
  obtain ⟨_, _, paged, _⟩ := run_bind_ok.mp ordered
  have paged := mapError_eq_ok.mp (run_lift_ok.mp paged).1
  rw [Table.paging_keyset root.keyset?] at paged
  obtain ⟨p, asked, _⟩ := map_eq_ok.mp paged
  exact ⟨p, asked⟩

section Rows

variable {order : ColumnOrder} {table result : List Record} {conditions : List Fragment}

/-- A row lies past a cursor, if there is one, on the side that a page is on. -/
def ColumnOrder.beyond (order : ColumnOrder) (os : List OrderTerm) (backward : Bool) :
    Option (List Value) → Record → Bool
  | none, _ => true
  | some vs, ρ => order.tuples os (ρ.tuple os) vs == if backward then .lt else .gt

/-- The rows that qualify for a page, in the order of its sort key as it is declared. -/
def ColumnOrder.qualifying (order : ColumnOrder) (p : KeysetPage) (table : List Record) :
    List Record :=
  let os := p.key.terms p.table
  (order.sorted os table).filter (order.beyond os p.backward p.cursor)

theorem tuples_pagingOrder (order : ColumnOrder) (p : KeysetPage) (ρ : Record) (vs : List Value) :
    order.tuples (pagingOrder (.keyset p)) (ρ.tuple (pagingOrder (.keyset p))) vs = .gt ↔
      order.tuples (p.key.terms p.table) (ρ.tuple (p.key.terms p.table)) vs =
        if p.backward then .lt else .gt := by
  rw [pagingOrder_keyset]
  cases p.backward with
  | false => rfl
  | true =>
    rw [if_pos rfl, if_pos rfl, ColumnOrder.tuple_flip, ColumnOrder.tuples_flip]
    cases order.tuples (p.key.terms p.table) (ρ.tuple (p.key.terms p.table)) vs <;> decide

theorem terms_source (p : KeysetPage) : (pagingOrder (.keyset p)).map OrderTerm.source =
    (p.key.terms p.table).map OrderTerm.source := by
  rw [pagingOrder, SortKey.terms, List.map_map, List.map_map]
  rfl

/-- The conditions of a page are true of the rows past its cursor. -/
theorem keeps_beyond (order : ColumnOrder) (full : p.key ≠ [])
    (known : ∀ vs, p.cursor = some vs →
      vs.length = p.key.length ∧ ∀ v ∈ vs, v.isNull = false) :
    ∃ conditions ps, (cursorCondition (.keyset p)).run .empty = .ok (conditions, ps) ∧
      ∀ ρ : Record, (∀ o ∈ p.key.terms p.table, (ρ o.source).isNull = false) →
        order.keeps conditions ρ = order.beyond (p.key.terms p.table) p.backward p.cursor ρ := by
  cases given : p.cursor with
  | none =>
    refine ⟨[], .empty, ?_, fun ρ _ => rfl⟩
    rw [cursorCondition, given]
    rfl
  | some vs =>
    obtain ⟨width, known⟩ := known vs given
    obtain ⟨condition, formula, ps, run, _, reads, _, past⟩ :=
      cursorCondition_past order full given width known .empty
    refine ⟨[condition], ps, run, fun ρ cells => ?_⟩
    have cells' : ∀ o ∈ pagingOrder (.keyset p), (ρ o.source).isNull = false := by
      rw [← List.forall_mem_map (P := fun source => (ρ source).isNull = false)] at cells ⊢
      rw [terms_source]
      exact cells
    have emitted := past ρ cells'
    rw [tuples_pagingOrder] at emitted
    rw [Bool.eq_iff_iff, ColumnOrder.keeps, ColumnOrder.beyond, between, reads]
    simpa using emitted

/-- No row is past a null. -/
theorem keeps_null {c : CursorTerm} {position : Nat} (null : c.value = .param position .null)
    (ρ : Record) : order.keeps [pastCursor [c]] ρ = false := by
  have read : read? c.strict = some (.atom c.strict) :=
    read?_of_reads (.all (.one (reads_compared (by rw [null]; rfl) _)))
  have unknown : order.truth ρ c.strict = none := by
    obtain ⟨label, column, direction, value⟩ := c
    cases null
    cases direction <;> simp [CursorTerm.strict, CursorTerm.compared, ColumnOrder.truth,
      ColumnOrder.comparison?, Value.isNull]
  rw [ColumnOrder.keeps, pastCursor, between, read, Option.bind_some, Formula.eval, unknown]
  rfl

theorem filter_keeps_nil (rows : List Record) : rows.filter (order.keeps []) = rows :=
  List.filter_true rows

theorem separates_pagingOrder (separate : order.Separates (p.key.terms p.table) table) :
    order.Separates (pagingOrder (.keyset p)) table := by
  rw [pagingOrder_keyset]
  split
  · refine separate.imp (fun {ρ τ} apart => ?_)
    rw [ColumnOrder.records_flip, ne_eq, Ordering.swap_eq_eq]
    exact apart
  · exact separate

/-- A page past what no row is past has no rows. -/
theorem returns_nil {st : Statement} (pages : PagesOnly t p conditions st.part)
    (nothing : ∀ ρ, order.keeps conditions ρ = false) : st.Returns order table [] := by
  have empty : table.filter (order.keeps conditions) = [] :=
    List.filter_eq_nil_iff.mpr (fun ρ _ => by simp [nothing ρ])
  have cut (limit : Option Nat) : [] = upTo limit ([] : List Record) :=
    (List.sublist_nil.mp (upTo_sublist limit [])).symm
  refine ⟨_, [], pages.tables, ⟨rfl, [], ?_, cut _⟩, ⟨.refl _, .nil⟩⟩
  exact ⟨empty ▸ .refl _, .nil⟩

variable [∀ source, Std.TransCmp (order source)]

variable (order) in
/-- The rows that qualify, in the order in which a page is read. -/
theorem sorts_pagingOrder (p : KeysetPage) (table : List Record) :
    order.Sorts (pagingOrder (.keyset p))
      (table.filter (order.beyond (p.key.terms p.table) p.backward p.cursor))
      (if p.backward then (order.qualifying p table).reverse else order.qualifying p table) := by
  have declared := (ColumnOrder.sorts_sorted order (p.key.terms p.table) table).filter
    (order.beyond (p.key.terms p.table) p.backward p.cursor)
  rw [pagingOrder_keyset]
  split
  · exact declared.reverse
  · exact declared

/-- The statement of a page returns the rows that the page reads. -/
theorem returned_keysetRoot {st : Statement} (pages : PagesOnly t p conditions st.part)
    (kept : ∀ ρ ∈ table, order.keeps conditions ρ =
      order.beyond (p.key.terms p.table) p.backward p.cursor ρ)
    (separate : order.Separates (p.key.terms p.table) table)
    (returned : st.Returns order table result) :
    result = p.read (order.qualifying p table) := by
  obtain ⟨page, rows, tables, ⟨_, sorted, sorts, rfl⟩, outer⟩ := returned
  rw [pages.tables] at tables
  obtain rfl := TableItem.page.inj (List.head_eq_of_cons_eq tables)
  have filtered : table.filter (order.keeps conditions) =
      table.filter (order.beyond (p.key.terms p.table) p.backward p.cursor) :=
    List.filter_congr kept
  have inner : order.Sorts (pagingOrder (.keyset p))
      (table.filter (order.beyond (p.key.terms p.table) p.backward p.cursor)) sorted :=
    filtered ▸ sorts
  have apart := separates_pagingOrder separate
  obtain rfl := inner.unique (apart.filter _) (sorts_pagingOrder order p table)
  -- What the page leaves is in the statement's order already.
  rw [pages.conditions, pages.orders] at outer
  rw [filter_keeps_nil] at outer
  have cut := upTo_sublist (pageOf t.name t.label none conditions (.keyset p)).limit
    ((if p.backward then (order.qualifying p table).reverse else order.qualifying p table).drop 0)
  have before := inner.sublist (cut.trans (List.drop_sublist 0 _))
  have apart' := (inner.separates (apart.filter _)).sublist (cut.trans (List.drop_sublist 0 _))
  exact outer.unique apart' before

/-- What a page reads is what its statement may return. -/
theorem returns_read {st : Statement} (pages : PagesOnly t p conditions st.part)
    (kept : ∀ ρ ∈ table, order.keeps conditions ρ =
      order.beyond (p.key.terms p.table) p.backward p.cursor ρ) :
    st.Returns order table (p.read (order.qualifying p table)) := by
  have filtered : table.filter (order.keeps conditions) =
      table.filter (order.beyond (p.key.terms p.table) p.backward p.cursor) :=
    List.filter_congr kept
  have sorts := sorts_pagingOrder order p table
  refine ⟨_, p.read (order.qualifying p table), pages.tables, ⟨rfl, _, filtered ▸ sorts, rfl⟩, ?_⟩
  rw [pages.conditions, pages.orders, filter_keeps_nil]
  exact sorts.sublist (upTo_sublist _ _)

end Rows

end Sql

end TreeQuery
