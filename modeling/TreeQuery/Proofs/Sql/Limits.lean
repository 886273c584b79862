import TreeQuery.Proofs.Plan.Bounds
import TreeQuery.Proofs.Sql.Filters
import TreeQuery.Proofs.Sql.Flavors

/-!
The numbers in the limits of a statement. Each table that a statement selects in pages has one page
in it, which is limited by the table's arguments.
-/

namespace TreeQuery

open Plan (Node Paging Table)

namespace Sql

/-- A part has the pages of some tables. -/
def Paged (ts : List Table) (part : Part) : Prop :=
  List.Forall₂ MadeFor (ts.filter Table.paginate) part.pages

section Nodes

variable (fl : Flavor)

/-- However a table is reached, it has one page if its rows are selected. -/
theorem tablePart_paged {t : Table} (parent : Option Table) (path : List String)
    (scope : Option (List Value)) :
    Yields (Paged (if parent.isSome && t.isByKey then [] else [t]))
      (tablePart fl parent path scope t) := by
  have relation : Yields (PagesOf (if parent.isSome && t.isByKey then [] else [t]))
      (relationPart fl parent path scope t) := by
    unfold relationPart Table.isByKey
    cases t.join with
    | some join => simpa using joinPart_pages fl join
    | none =>
      cases t.junction with
      | some j =>
        cases many : j.batch with
        | some b =>
          have keyed : Yields (PagesOf (if parent.isNone then [t] else []))
              (junctionBatchPart fl parent path scope t j b) := junctionBatchPart_pages fl path j b
          cases parent <;> simpa [many] using keyed
        | none => simpa [many] using junctionPart_pages fl j
      | none =>
        cases t.batch with
        | some b =>
          have keyed : Yields (PagesOf (if parent.isNone then [t] else []))
              (batchPart fl parent path scope t b) := batchPart_pages fl path b
          cases parent <;> simpa using keyed
        | none => simpa using rootPart_pages fl
  apply Yields.after
  intro conditions
  apply Yields.after
  intro orders
  apply relation.bind
  intro part pages
  exact .pure pages.pages

mutual

theorem nodePart_paged : (n : Node) → (parent : Table) → (path : List String) →
    (scope : Option (List Value)) →
    Yields (Paged (Node.reachedBelow [n])) (nodePart fl (some parent) path scope n)
  | .table t children, parent, path, scope => by
    rw [nodePart]
    apply (tablePart_paged fl (some parent) path scope).bind
    intro here own
    change Paged (if t.isByKey then [] else [t]) here at own
    apply Yields.ite
    · intro continued
      have single : t.isBatch = false := by simpa [continues] using continued
      apply (childrenPart_paged children t (path ++ [t.label])).bind
      intro rest below
      simp only [Node.reachedBelow, single, Bool.false_eq_true, if_false, List.append_nil]
      exact .pure (madeFor_append own below)
    · intro apart
      have batch : t.isBatch = true := by simpa [continues] using apart
      simp only [Node.reachedBelow, batch, if_true, List.append_nil]
      exact .pure own
  | .column _, _, _, _ | .composite _, _, _, _ | .noop _ _, _, _, _ => by
    simp only [Node.reachedBelow]
    exact .pure List.Forall₂.nil

theorem childrenPart_paged : (children : List Node) → (parent : Table) → (path : List String) →
    Yields (Paged (Node.reachedBelow children)) (childrenPart fl parent path children)
  | [], _, _ => by
    rw [Node.reachedBelow]
    exact .pure List.Forall₂.nil
  | c :: r, parent, path => by
    rw [childrenPart, Node.reachedBelow_cons]
    apply (nodePart_paged c parent path none).bind
    intro here first
    apply (childrenPart_paged r parent path).bind
    intro rest later
    exact .pure (madeFor_append first later)

end

theorem statement_paged {node : Node} {scope : Option (List Value)} {st : Statement}
    (stated : statement fl node scope = .ok st) : Paged node.reachedTables st.part := by
  obtain ⟨isTable, _, ran⟩ := statement_ok.mp stated
  cases node with
  | column _ | composite _ | noop _ _ => cases isTable
  | table t children =>
    have whole : Yields (Paged (Node.table t children).reachedTables)
        (nodePart fl none [] scope (.table t children)) := by
      rw [nodePart]
      apply (tablePart_paged fl none [] scope).bind
      intro here own
      apply (childrenPart_paged fl children t [t.label]).bind
      intro rest below
      exact .pure (madeFor_append own below)
    exact whole.returned ran

end Nodes

/-- The end of a page, with the number of its rows and where they start. -/
def Page.boundText (fl : Flavor) (p : Page) : String :=
  "\n  " ++ fl.limit p.limit ++
    (match p.offset with
      | some n => " OFFSET " ++ Numeral.ofNat n
      | none => "") ++ "\n) "

theorem Page.text_bounds (fl : Flavor) (p : Page) : Contains (p.text fl) (p.boundText fl) := by
  have regroup (a b c d e f : String) : Contains (a ++ b ++ c ++ d ++ e ++ f) (b ++ c ++ d ++ e) :=
    ⟨a, f, by simp only [String.append_assoc]⟩
  exact regroup ..

/-- The page of a table in a statement has the limit and the start that the table's arguments ask
for, and the statement has them in its text. -/
structure PageBounds (fl : Flavor) (st : Statement) (t : Table) (page : Page) : Prop where
  asked : ∃ p, t.paging = .ok p ∧ page.limit = p.limit ∧ page.offset = p.offset?
  bounded : t.Bounded page.limit page.offset
  written : Contains (st.sql fl) (page.boundText fl)

theorem MadeFor.bounds {fl : Flavor} {st : Statement} {t : Table} {page : Page}
    (made : MadeFor t page) (member : page ∈ st.part.pages) : PageBounds fl st t page := by
  obtain ⟨p, name, label, inner, conditions, asked, rfl⟩ := made
  have offset : (pageOf name label inner conditions p).offset = p.offset? := by cases p <;> rfl
  refine ⟨⟨p, asked, rfl, offset⟩, ?_, ?_⟩
  · rw [offset]
    exact Table.bounded_of_paging asked
  · exact (Statement.sql_page fl member).trans (Page.text_bounds fl _)

/-- The pages of a statement are those of the tables that it selects in pages, one for each. -/
theorem statement_page_bounds {fl : Flavor} {node : Node} {scope : Option (List Value)}
    {st : Statement} (stated : statement fl node scope = .ok st) :
    List.Forall₂ (PageBounds fl st) (node.reachedTables.filter Table.paginate) st.part.pages := by
  have made : List.Forall₂ (flip MadeFor) st.part.pages
      (node.reachedTables.filter Table.paginate) := (statement_paged fl stated).flip
  apply List.Forall₂.flip
  apply List.Forall₂.imp _ ((List.forall₂_and_left _ _).mpr ⟨fun _ => id, made⟩)
  rintro page t ⟨member, made⟩
  exact MadeFor.bounds made member

theorem exists_of_forall₂ {α β : Type} {R : α → β → Prop} {xs : List α} {ys : List β}
    (related : List.Forall₂ R xs ys) {x : α} (member : x ∈ xs) : ∃ y ∈ ys, R x y := by
  induction related with
  | nil => exact (List.not_mem_nil member).elim
  | cons here _ inductionHypothesis =>
    rcases List.mem_cons.mp member with rfl | later
    · exact ⟨_, List.mem_cons_self .., here⟩
    · obtain ⟨y, among, found⟩ := inductionHypothesis later
      exact ⟨y, List.mem_cons_of_mem _ among, found⟩

/-- Whatever arguments of a table are accepted, its page starts within 64 signed bits and is limited
to one more than the number that was given. The limit is within 64 signed bits too, unless that
number is the end of their range or beyond it. A statement that selects the table in pages has a
page with these bounds in its text. -/
theorem table_page_bounds (t : Table) :
    (∀ p, t.paging = .ok p → t.Bounded p.limit p.offset?) ∧
    ∀ fl node scope st, statement fl node scope = .ok st → t ∈ node.reachedTables →
      t.paginate = true → ∃ page ∈ st.part.pages, PageBounds fl st t page := by
  constructor
  · intro p asked
    exact Table.bounded_of_paging asked
  · intro fl node scope st stated reached paginate
    have selected : t ∈ node.reachedTables.filter Table.paginate :=
      List.mem_filter.mpr ⟨reached, paginate⟩
    exact exists_of_forall₂ (statement_page_bounds stated) selected

section Priced

theorem table_page_bounds_priced :
    pricedTable.Bounded (some 2) none ∧
    statement .sqlite (.table pricedTable pricedNodes) none = .ok pricedStatement ∧
    PageBounds .sqlite pricedStatement pricedTable pricedPage := by
  obtain ⟨bounded, stated⟩ := table_page_bounds pricedTable
  have reached : pricedTable ∈ (Node.table pricedTable pricedNodes).reachedTables :=
    List.mem_cons_self ..
  obtain ⟨page, member, bounds⟩ := stated _ _ _ _ statement_firstBook reached rfl
  cases List.mem_singleton.mp member
  exact ⟨bounded _ rfl, statement_firstBook, bounds⟩

/-- The priced books, as many as a value says. -/
def firstBooks (v : Value) : Table := { pricedTable with arguments := .ofPairs [("first", v)] }

/-- As many books as 64 signed bits can count are accepted, and the statement has a limit that they
cannot hold. One more of them, as a double, has the same limit. -/
theorem limit_past_range :
    (∃ st, statement .sqlite (.table (firstBooks (.int Int64.maxValue)) pricedNodes) none = .ok st ∧
      st.part.pages.map Page.limit = [some (largestInt64 + 1)]) ∧
    (firstBooks (.double ⟨0x43e0000000000000⟩)).paging.toOption.bind Paging.limit =
        some (largestInt64 + 1) ∧
      (Value.double ⟨0x43e0000000000000⟩).quantity? = some ((largestInt64 + 1 : ℕ) : ℚ) := by
  refine ⟨⟨_, rfl, rfl⟩, rfl, ?_⟩
  have integral : Double.isIntegral ⟨0x43e0000000000000⟩ = true := by decide
  have whole : Double.truncate ⟨0x43e0000000000000⟩ = ((largestInt64 + 1 : ℕ) : ℤ) := by decide
  rw [Value.quantity?, Value.datum?, Double.datum_of_isIntegral integral, whole]
  rfl

end Priced

end Sql

end TreeQuery
