import Mathlib.Data.List.Forall2
import TreeQuery.Proofs.Connection.Offset
import TreeQuery.Proofs.Plan.Boundaries
import TreeQuery.Proofs.Sql.KeysetRoot
import TreeQuery.Proofs.Sql.Selected

/-!
The order of a page and the order of the statement around it. A table adds all of its orderings to
the statement's order, and the one that its page is taken in comes last among them.
-/

namespace TreeQuery

open Plan (Node Paging Table)

namespace Plan

namespace Node

mutual

/-- A table and those that are joined below it, down to the next batch boundaries. -/
def statementTables : Node → List Table
  | .table t children => t :: joinedTables children
  | _ => []

def joinedTables : List Node → List Table
  | [] => []
  | n :: r => (if n.isBatch then [] else statementTables n) ++ joinedTables r

end

end Node

/-- A table without the ordering that drives its page. -/
def Table.withoutDriver (t : Table) : Table :=
  match t.sortKey, t.junction.bind Junction.sortKey, t.orderBy with
  | some _, _, _ => { t with sortKey := none }
  | none, some _, _ => { t with junction := t.junction.map (fun j => { j with sortKey := none }) }
  | none, none, some _ => { t with orderBy := none }
  | none, none, none => { t with junction := t.junction.map (fun j => { j with orderBy := none }) }

end Plan

namespace Sql

/-- Whether the rows of a table are read against its sort key. -/
def readsBackward (t : Table) : Bool :=
  t.paginate && t.paging.toOption.any Paging.isBackward

/-- What a table adds to the order of its statement. -/
def contribution (t : Table) : List OrderTerm := tableOrder t (readsBackward t)

/-- The same without the order of the table's page. -/
def otherOrders (t : Table) : List OrderTerm := tableOrder t.withoutDriver (readsBackward t)

def TableItem.page? : TableItem → Option Page
  | .page p => some p
  | .lateral _ p _ => some p
  | _ => none

def Part.pages (part : Part) : List Page := part.tables.filterMap TableItem.page?

theorem tableOrder_keyed {t : Table} {key : SortKey} {label : String}
    (keyed : t.keyset? = some (key, label)) (backward : Bool) :
    tableOrder t backward = tableOrder t.withoutDriver backward ++
      key.map (fun c => ⟨label, c.column, if backward then c.direction.flip else c.direction⟩) := by
  unfold Table.keyset? at keyed
  unfold Table.withoutDriver tableOrder
  cases own : t.sortKey with
  | some k =>
    rw [own] at keyed
    cases keyed
    simp
  | none =>
    rw [own] at keyed
    cases linked : t.junction with
    | none => simp [linked] at keyed
    | some j =>
      cases driving : j.sortKey with
      | none => simp [linked, driving] at keyed
      | some k =>
        simp only [linked, driving, Option.bind_some, Option.map_some] at keyed
        cases keyed
        simp [driving]

theorem tableOrder_ordered {t : Table} {order : OrderBy} {label : String}
    (unkeyed : t.keyset? = none) (ordered : t.offsetOrder? = some (order, label)) (backward : Bool) :
    tableOrder t backward = tableOrder t.withoutDriver backward ++
      order.map (fun c => ⟨label, c.column, c.direction⟩) := by
  unfold Table.keyset? at unkeyed
  unfold Table.offsetOrder? at ordered
  unfold Table.withoutDriver tableOrder
  cases own : t.sortKey with
  | some k => simp [own] at unkeyed
  | none =>
    rw [own] at unkeyed
    cases first : t.orderBy with
    | some o =>
      rw [first] at ordered
      cases ordered
      cases linked : t.junction with
      | none => simp
      | some j =>
        have keyless : j.sortKey = none := by simpa [linked] using unkeyed
        simp [keyless]
    | none =>
      rw [first] at ordered
      cases linked : t.junction with
      | none => simp [linked] at ordered
      | some j =>
        have keyless : j.sortKey = none := by simpa [linked] using unkeyed
        cases driving : j.orderBy with
        | none => simp [linked, driving] at ordered
        | some o =>
          simp only [linked, driving, Option.bind_some, Option.map_some] at ordered
          cases ordered
          simp [keyless, driving]

/-- The ordering that drives a page is the last of those that its table adds. -/
theorem contribution_eq {t : Table} (paginate : t.paginate = true) {p : Paging}
    (asked : t.paging = .ok p) : contribution t = otherOrders t ++ pagingOrder p := by
  have backward : readsBackward t = p.isBackward := by
    rw [readsBackward, paginate, asked]
    rfl
  rw [contribution, otherOrders, backward]
  unfold Table.paging at asked
  cases keyed : t.keyset? with
  | some driving =>
    rw [keyed] at asked
    obtain ⟨q, page, rfl⟩ := map_eq_ok.mp asked
    obtain ⟨key, label⟩ := Table.keysetPage_key page
    rw [tableOrder_keyed keyed, pagingOrder, key, label]
    rfl
  | none =>
    rw [keyed] at asked
    cases ordered : t.offsetOrder? with
    | none =>
      rw [ordered] at asked
      cases asked
    | some driving =>
      rw [ordered] at asked
      obtain ⟨q, page, rfl⟩ := map_eq_ok.mp asked
      obtain ⟨order, label⟩ := Table.offsetPage_order page
      rw [tableOrder_ordered keyed ordered, pagingOrder, order, label]

/-- What is repeated begins with itself only if it begins what stands before it. -/
theorem prefix_append_self {α : Type} {l os : List α} (distinct : os.Nodup) :
    os <+: l ++ os ↔ l = [] ∨ os <+: l := by
  constructor
  · intro repeated
    by_cases short : os.length ≤ l.length
    · exact .inr (List.prefix_of_prefix_length_le repeated (List.prefix_append l os) short)
    · cases l with
      | nil => exact .inl rfl
      | cons a l =>
        have longer : (a :: l).length ≤ os.length := by omega
        obtain ⟨rest, rfl⟩ :=
          List.prefix_of_prefix_length_le (List.prefix_append (a :: l) os) repeated longer
        rw [List.prefix_append_right_inj] at repeated
        cases rest with
        | nil => simp at short
        | cons b rest =>
          obtain ⟨rfl, _⟩ := List.cons_prefix_cons.mp repeated
          simp at distinct
  · rintro (rfl | begins)
    · exact List.prefix_refl os
    · exact begins.trans (List.prefix_append l os)

/-- What a computation that binds values returns, if it returns. -/
structure Yields {α : Type} (P : α → Prop) (m : Binder α) : Prop where
  returned : ∀ {ps x ps'}, m.run ps = .ok (x, ps') → P x

namespace Yields

variable {α β : Type} {P : α → Prop} {Q : β → Prop}

theorem pure {x : α} (h : P x) : Yields P (pure x) where
  returned ran := by
    obtain ⟨rfl, _⟩ := run_pure_ok.mp ran
    exact h

theorem throw (e : SqlError) : Yields P (throw e) where
  returned ran := (run_throw_ok.mp ran).elim

theorem lift {w : Except SqlError α} (h : ∀ x, w = .ok x → P x) :
    Yields P (liftM w : Binder α) where
  returned ran := h _ (run_lift_ok.mp ran).1

theorem bind {m : Binder α} {f : α → Binder β} (first : Yields P m)
    (later : ∀ x, P x → Yields Q (f x)) : Yields Q (m >>= f) where
  returned ran := by
    obtain ⟨x, _, here, rest⟩ := run_bind_ok.mp ran
    exact (later x (first.returned here)).returned rest

/-- What was returned before does not matter. -/
theorem after {m : Binder α} {f : α → Binder β} (later : ∀ x, Yields Q (f x)) :
    Yields Q (m >>= f) := by
  have anything : Yields (fun _ => True) m := ⟨fun _ => trivial⟩
  exact anything.bind (fun x _ => later x)

theorem ite {c : Prop} [Decidable c] {m m' : Binder α} (yes : c → Yields P m)
    (no : ¬c → Yields P m') : Yields P (if c then m else m') := by
  by_cases h : c
  · rw [if_pos h]
    exact yes h
  · rw [if_neg h]
    exact no h

end Yields

/-- A page of a table, in the order that the table's arguments ask for. -/
def TakenFrom (t : Table) (page : Page) : Prop :=
  ∃ p, t.paging = .ok p ∧ page.order = pagingOrder p

/-- A page made from what the table's arguments ask for. -/
def MadeFor (t : Table) (page : Page) : Prop :=
  ∃ p name label inner conditions, t.paging = .ok p ∧ page = pageOf name label inner conditions p

theorem MadeFor.taken {t : Table} {page : Page} (made : MadeFor t page) : TakenFrom t page := by
  obtain ⟨p, _, _, _, _, asked, rfl⟩ := made
  exact ⟨p, asked, rfl⟩

section Pages

variable {t : Table} (fl : Flavor)

theorem supportedPaging_yields (lateral : Bool) :
    Yields (fun p => t.paging = .ok p) (supportedPaging fl t lateral) := by
  have asked : Yields (fun p => t.paging = .ok p) (getPaging t) :=
    .lift (fun p done => mapError_eq_ok.mp done)
  apply asked.bind
  intro p paged
  apply Yields.after
  intro _
  exact .pure paged

theorem madeFor_pageOf {p : Paging} (asked : t.paging = .ok p) (name : TableName) (label : String)
    (inner : Option InnerJoin) (conditions : List Fragment) :
    MadeFor t (pageOf name label inner conditions p) :=
  ⟨p, name, label, inner, conditions, asked, rfl⟩

/-- Tables of which one is a page. -/
def OnePage (t : Table) (items : List TableItem) : Prop :=
  ∃ page, items.filterMap TableItem.page? = [page] ∧ MadeFor t page

theorem OnePage.behind {item : TableItem} {items : List TableItem} (noPage : item.page? = none)
    (h : OnePage t items) : OnePage t (item :: items) := by
  rwa [OnePage, List.filterMap_cons_none noPage]

theorem rootPage_page : Yields (OnePage t) (rootPage fl t) := by
  apply (supportedPaging_yields fl false).bind
  intro p asked
  apply Yields.after
  intro own
  apply Yields.after
  intro past
  exact .pure ⟨_, rfl, madeFor_pageOf asked _ _ _ _⟩

theorem joinedPage_page (parent : Table) (join : List Clause) :
    Yields (OnePage t) (joinedPage fl parent t join) := by
  apply (supportedPaging_yields fl true).bind
  intro p asked
  apply Yields.after
  intro joined
  apply Yields.after
  intro own
  apply Yields.after
  intro past
  apply Yields.after
  intro on
  exact .pure ⟨_, rfl, madeFor_pageOf asked _ _ _ _⟩

theorem scopeTable_yields (column : String) (scope : List Value) :
    Yields (fun item => item.page? = none) (scopeTable column scope) := by
  apply Yields.after
  intro values
  exact .pure rfl

theorem batchPage_page (keys : Plan.Batch) (scope : List Value) :
    Yields (OnePage t) (batchPage fl t keys scope) := by
  apply (supportedPaging_yields fl true).bind
  intro p asked
  apply (scopeTable_yields _ scope).bind
  intro from_ noPage
  apply Yields.after
  intro own
  apply Yields.after
  intro past
  exact .pure (OnePage.behind noPage ⟨_, rfl, madeFor_pageOf asked _ _ _ _⟩)

theorem junctionPage_page (parent : Table) (j : Plan.Junction) (fromParent toChild : List Clause) :
    Yields (OnePage t) (junctionPage fl parent t j fromParent toChild) := by
  apply (supportedPaging_yields fl true).bind
  intro p asked
  apply Yields.after
  intro joined
  apply Yields.after
  intro linked
  apply Yields.after
  intro own
  apply Yields.after
  intro past
  apply Yields.after
  intro inner
  apply Yields.after
  intro on
  exact .pure ⟨_, rfl, madeFor_pageOf asked _ _ _ _⟩

theorem junctionBatchPage_page (j : Plan.Junction) (keys : Plan.Batch) (scope : List Value)
    (join : List Clause) : Yields (OnePage t) (junctionBatchPage fl t j keys scope join) := by
  apply (supportedPaging_yields fl true).bind
  intro p asked
  apply (scopeTable_yields _ scope).bind
  intro from_ noPage
  apply Yields.after
  intro linked
  apply Yields.after
  intro own
  apply Yields.after
  intro past
  apply Yields.after
  intro inner
  apply Yields.after
  intro child
  exact .pure (OnePage.behind noPage ⟨_, rfl, madeFor_pageOf asked _ _ _ _⟩)

end Pages

/-- A part has one page for each of some tables that are paginated, and orders nothing. -/
structure PagesOf (ts : List Table) (part : Part) : Prop where
  pages : List.Forall₂ MadeFor (ts.filter Table.paginate) part.pages
  unordered : part.orders = []

section Parts

variable {t : Table} {parent : Option Table} {scope : Option (List Value)}
variable (fl : Flavor) (path : List String)

theorem OnePage.pagesOf {items : List TableItem} (h : OnePage t items)
    (paginate : t.paginate = true) : PagesOf [t] (tablesOnly items) := by
  obtain ⟨page, only, made⟩ := h
  have pages : (tablesOnly items).pages = [page] := only
  refine ⟨?_, rfl⟩
  rw [pages, List.filter_cons_of_pos paginate]
  exact .cons made .nil

theorem pagesOf_plain {part : Part} (plain : part.pages = []) (unordered : part.orders = [])
    (unpaged : ¬t.paginate = true) : PagesOf [t] part := by
  refine ⟨?_, unordered⟩
  rw [plain, List.filter_cons_of_neg unpaged]
  exact .nil

theorem joinPart_pages (join : List Clause) :
    Yields (PagesOf [t]) (joinPart fl parent t join) := by
  cases parent with
  | none => exact .throw _
  | some p =>
    simp only [joinPart]
    apply Yields.ite
    · intro paginate
      apply (joinedPage_page fl p join).bind
      intro items page
      exact .pure (page.pagesOf paginate)
    · intro unpaged
      apply Yields.after
      intro on
      exact .pure (pagesOf_plain rfl rfl unpaged)

theorem junctionPart_pages (j : Plan.Junction) :
    Yields (PagesOf [t]) (junctionPart fl parent t j) := by
  cases parent with
  | none => exact .throw _
  | some p =>
    simp only [junctionPart]
    cases j.fromParent with
    | none => exact .throw _
    | some fromParent =>
      cases j.toChild with
      | none => exact .throw _
      | some toChild =>
        apply Yields.ite
        · intro paginate
          apply (junctionPage_page fl p j fromParent toChild).bind
          rintro link ⟨page, only, made⟩
          apply Yields.after
          intro on
          have beside : OnePage t (link ++ [.leftJoin t.name t.label false on]) := by
            rw [OnePage, List.filterMap_append, only]
            exact ⟨page, rfl, made⟩
          exact .pure (beside.pagesOf paginate)
        · intro unpaged
          apply Yields.after
          intro linked
          apply Yields.bind (P := fun link => link.filterMap TableItem.page? = []) (.pure rfl)
          intro link plain
          apply Yields.after
          intro on
          apply Yields.pure
          apply pagesOf_plain _ rfl unpaged
          change (link ++ [TableItem.leftJoin _ _ _ _]).filterMap _ = []
          rw [List.filterMap_append, plain]
          rfl

theorem batchPart_pages (b : Plan.Batch) :
    Yields (PagesOf (if parent.isNone then [t] else [])) (batchPart fl parent path scope t b) := by
  cases parent with
  | some p => exact .pure ⟨.nil, rfl⟩
  | none =>
    apply Yields.after
    intro values
    apply Yields.ite
    · intro paginate
      apply (batchPage_page fl b values).bind
      intro items page
      exact .pure (page.pagesOf paginate)
    · intro unpaged
      apply Yields.after
      intro within
      exact .pure (pagesOf_plain rfl rfl unpaged)

theorem junctionBatchPart_pages (j : Plan.Junction) (b : Plan.JunctionBatch) :
    Yields (PagesOf (if parent.isNone then [t] else []))
      (junctionBatchPart fl parent path scope t j b) := by
  cases parent with
  | some p => exact .pure ⟨.nil, rfl⟩
  | none =>
    simp only [junctionBatchPart]
    cases b.join with
    | none => exact .throw _
    | some join =>
      apply Yields.after
      intro values
      apply Yields.ite
      · intro paginate
        apply (junctionBatchPage_page fl j b.keys values join).bind
        intro items page
        exact .pure (page.pagesOf paginate)
      · intro unpaged
        apply Yields.after
        intro on
        apply Yields.after
        intro within
        exact .pure (pagesOf_plain rfl rfl unpaged)

theorem rootPart_pages : Yields (PagesOf [t]) (rootPart fl parent t) := by
  cases parent with
  | some p => exact .throw _
  | none =>
    simp only [rootPart, Option.isSome_none, Bool.false_eq_true, if_false]
    apply Yields.ite
    · intro paginate
      apply (rootPage_page fl).bind
      intro items page
      exact .pure (page.pagesOf paginate)
    · intro unpaged
      exact .pure (pagesOf_plain rfl rfl unpaged)

/-- What a boundary below another table adds to its statement is the key of its parent. -/
theorem relationPart_pages (related : t.relationCount ≤ 1) :
    Yields (PagesOf (if continues parent t then [t] else []))
      (relationPart fl parent path scope t) := by
  rw [Table.relationCount_le_one] at related
  have batched (b : t.isBatch = true) : continues parent t = parent.isNone := by
    rw [continues, b, Bool.not_true, Bool.or_false]
  have joined (b : t.isBatch = false) : continues parent t = true := by
    rw [continues, b, Bool.not_false, Bool.or_true]
  unfold relationPart
  cases hj : t.join with
  | some join =>
    have apart := related.1 (by rw [hj]; rfl)
    rw [joined (by rw [Table.isBatch, Table.junctionBatch?, apart.1, apart.2]; rfl)]
    exact joinPart_pages fl join
  | none =>
    cases hl : t.junction with
    | some j =>
      have apart := related.2 (by rw [hl]; rfl)
      cases hb : j.batch with
      | some b =>
        rw [batched (by rw [Table.isBatch, Table.junctionBatch?, hl, Option.bind_some, hb]; simp)]
        simp only [hb]
        exact junctionBatchPart_pages fl path j b
      | none =>
        rw [joined (by rw [Table.isBatch, Table.junctionBatch?, hl, Option.bind_some, hb, apart]; rfl)]
        simp only [hb]
        exact junctionPart_pages fl j
    | none =>
      cases hb : t.batch with
      | some b =>
        rw [batched (by rw [Table.isBatch, hb]; rfl)]
        exact batchPart_pages fl path b
      | none =>
        rw [joined (by rw [Table.isBatch, Table.junctionBatch?, hl, hb]; rfl)]
        exact rootPart_pages fl

theorem orderPart_contribution : Yields (fun os => os = if continues parent t then contribution t else [])
    (orderPart parent t) := by
  unfold orderPart
  cases continues parent t with
  | false => exact .pure rfl
  | true =>
    simp only [Bool.not_true, Bool.false_eq_true, if_false]
    apply Yields.ite
    · intro paginate
      have asked : Yields (fun p => t.paging = .ok p) (getPaging t) :=
        .lift (fun p done => mapError_eq_ok.mp done)
      apply asked.bind
      intro p paged
      apply Yields.pure
      rw [contribution, readsBackward, paginate, paged]
      rfl
    · intro unpaged
      apply Yields.pure
      rw [contribution, readsBackward, Bool.eq_false_iff.mpr unpaged]
      rfl

end Parts

/-- A part has the pages of some tables, and orders by what these tables add. -/
structure OrdersOf (ts : List Table) (part : Part) : Prop where
  pages : List.Forall₂ MadeFor (ts.filter Table.paginate) part.pages
  orders : part.orders = ts.flatMap contribution

theorem madeFor_append {ts us : List Table} {part part' : Part}
    (h : List.Forall₂ MadeFor (ts.filter Table.paginate) part.pages)
    (h' : List.Forall₂ MadeFor (us.filter Table.paginate) part'.pages) :
    List.Forall₂ MadeFor ((ts ++ us).filter Table.paginate) (part ++ part').pages := by
  have pages : (part ++ part').pages = part.pages ++ part'.pages := List.filterMap_append
  rw [pages, List.filter_append]
  exact List.rel_append h h'

theorem OrdersOf.append {ts us : List Table} {part part' : Part} (h : OrdersOf ts part)
    (h' : OrdersOf us part') : OrdersOf (ts ++ us) (part ++ part') where
  pages := madeFor_append h.pages h'.pages
  orders := by
    rw [List.flatMap_append, ← h.orders, ← h'.orders]
    rfl

theorem ordersOf_nil {items : List SelectItem} : OrdersOf [] { Part.empty with items } := ⟨.nil, rfl⟩

section Nodes

variable (fl : Flavor)

theorem tablePart_orders {t : Table} (related : t.relationCount ≤ 1) (parent : Option Table)
    (path : List String) (scope : Option (List Value)) :
    Yields (OrdersOf (if continues parent t then [t] else [])) (tablePart fl parent path scope t) := by
  apply Yields.after
  intro conditions
  apply orderPart_contribution.bind
  intro orders added
  apply (relationPart_pages fl path related).bind
  intro relation paged
  apply Yields.pure
  constructor
  · exact paged.pages
  · change orders ++ relation.orders = _
    rw [added, paged.unordered, List.append_nil]
    cases continues parent t <;> simp

mutual

theorem nodePart_orders : (n : Node) → n.Everywhere Table.Coherent → (parent : Option Table) →
    (path : List String) → (scope : Option (List Value)) →
    Yields (OrdersOf (if parent.isNone || !n.isBatch then n.statementTables else []))
      (nodePart fl parent path scope n)
  | .table t children, coherent, parent, path, scope => by
    rw [nodePart]
    apply (tablePart_orders fl coherent.1.related parent path scope).bind
    intro here own
    change Yields (OrdersOf (if continues parent t then _ else _)) _
    apply Yields.ite
    · intro within
      rw [if_pos within] at own ⊢
      apply (childrenPart_orders children coherent.2 t (path ++ [t.label])).bind
      intro rest below
      exact .pure (own.append below)
    · intro apart
      rw [if_neg apart] at own ⊢
      exact .pure own
  | .column c, _, parent, path, scope => by
    cases parent with
    | none => exact .throw _
    | some p => exact .pure ordersOf_nil
  | .composite c, _, parent, path, scope => by
    cases parent with
    | none => exact .throw _
    | some p => exact .pure ordersOf_nil
  | .noop _ _, _, parent, path, scope => by
    cases parent <;> exact .pure ordersOf_nil

theorem childrenPart_orders : (children : List Node) → Node.EverywhereIn Table.Coherent children →
    (parent : Table) → (path : List String) →
    Yields (OrdersOf (Node.joinedTables children)) (childrenPart fl parent path children)
  | [], _, parent, path => .pure ordersOf_nil
  | c :: r, coherent, parent, path => by
    rw [childrenPart]
    apply (nodePart_orders c coherent.1 (some parent) path none).bind
    intro here first
    apply (childrenPart_orders r coherent.2 parent path).bind
    intro rest later
    apply Yields.pure
    have own : OrdersOf (if c.isBatch then [] else c.statementTables) here := by
      cases hb : c.isBatch <;> simpa [hb] using first
    exact own.append later

end

end Nodes

/-- How the order of a page stands in what its table adds to the order of the statement. It comes
after the table's other orderings, so it is in front only where there are none or where they begin
like it; and in front it keeps the rows of a page in the page's order. -/
structure PageOrders (t : Table) (page : Page) : Prop where
  taken : TakenFrom t page
  last : contribution t = otherOrders t ++ page.order
  first : page.order.Nodup →
    (page.order <+: contribution t ↔ otherOrders t = [] ∨ page.order <+: otherOrders t)
  keeps : page.order <+: contribution t →
    ∀ (order : ColumnOrder) (before after : List OrderTerm) (rows : List Record),
      rows.Pairwise (fun ρ τ => order.records before ρ τ = .eq) →
      rows.Pairwise (fun ρ τ => order.records (before ++ contribution t ++ after) ρ τ ≠ .gt) →
      rows.Pairwise (fun ρ τ => order.records page.order ρ τ ≠ .gt)

theorem TakenFrom.pageOrders {t : Table} (paginate : t.paginate = true) {page : Page}
    (taken : TakenFrom t page) : PageOrders t page := by
  have last : contribution t = otherOrders t ++ page.order := by
    obtain ⟨p, asked, order⟩ := taken
    rw [order, contribution_eq paginate asked]
  refine ⟨taken, last, ?_, ?_⟩
  · intro distinct
    rw [last]
    exact prefix_append_self distinct
  · rintro ⟨rest, first⟩ order before after rows tied sorted
    apply (tied.and sorted).imp
    rintro ρ τ ⟨same, le⟩ beyond
    apply le
    rw [← first, ColumnOrder.records_append, ColumnOrder.records_append, ColumnOrder.records_append,
      same, beyond]
    rfl

/-- The order of a planned statement is what its tables add, and each page in it is ordered by the
last ordering that its own table adds. -/
theorem statement_page_orders {Ctx : Type} {types : List (ObjectType Ctx)} {queryType : String}
    {schema : Schema Ctx} (built : Schema.build types queryType = .ok schema) {minify : Bool}
    {cx : Ctx} {x : Selection} {root : Node} (planned : schema.plan minify cx x = .ok root)
    {t : Table} {children : List Node} (starts : (t, children) ∈ root.statementRoots) {fl : Flavor}
    {scope : Option (List Value)} {st : Statement}
    (stated : statement fl (.table t children) scope = .ok st) :
    st.part.orders = (Node.table t children).statementTables.flatMap contribution ∧
      List.Forall₂ PageOrders
        ((Node.table t children).statementTables.filter Table.paginate) st.part.pages := by
  have coherent := Plan.plan_coherent (Schema.valid_of_build built) planned
  have below := Node.everywhere_statementRoot coherent starts
  obtain ⟨_, _, ran⟩ := statement_ok.mp stated
  have orders := (nodePart_orders fl _ below none [] scope).returned ran
  have paginated : ∀ u ∈ (Node.table t children).statementTables.filter Table.paginate,
      u.paginate = true := fun u hu => (List.mem_filter.mp hu).2
  constructor
  · exact orders.orders
  · apply List.Forall₂.imp _ ((List.forall₂_and_left _ _).mpr ⟨paginated, orders.pages⟩)
    rintro u page ⟨paginate, made⟩
    exact made.taken.pageOrders paginate

section Priced

/-- Books by price, in pages by year. -/
def pricedFields : List (Field Unit) :=
  [{ plainField "books" (.object "Book" true) with
      orderBy := some (fun _ _ => [⟨"price", .ascending⟩])
      sortKey := some (fun _ _ => [⟨"year", "year", .ascending, .int⟩])
      paginate := true }]

def pricedTypes : List (ObjectType Unit) :=
  [.ofFields "Query" none pricedFields,
    .ofFields "Book" (some (tableOf "books" "id")) [plainField "id" .scalar,
      plainField "price" .scalar]]

def priced : Schema Unit := ⟨pricedTypes, .ofFields "Query" none pricedFields⟩

theorem build_priced : Schema.build pricedTypes "Query" = .ok priced := by rfl

/-- The first book, and whether there are more. -/
def firstBook : Selection :=
  ⟨"books", none, .ofPairs [("first", .int 1)],
    [⟨"edges", none, .empty, [⟨"node", none, .empty, [.leaf "price" none]⟩]⟩]⟩

def pricedTable : Table where
  name := .ident "books"
  label := "books"
  fieldName := "books"
  arguments := .ofPairs [("first", .int 1)]
  join := none
  junction := none
  batch := none
  filter := []
  orderBy := some [⟨"price", .ascending⟩]
  sortKey := some [⟨"year", "year", .ascending, .int⟩]
  paginate := true
  many := true
  location := ["Query", "books"]

def pricedNodes : List Node :=
  [.column ⟨.name "id", "id", "id", true, none, ["Query", "books"]⟩,
    .column ⟨.name "year", "year", "year", false, none, ["Query", "books"]⟩,
    .column ⟨.name "price", "price", "price", false, none, ["Query", "books", "price"]⟩]

theorem plan_firstBook : priced.plan false () firstBook = .ok (.table pricedTable pricedNodes) := by
  rfl

def pricedPage : Page :=
  ⟨.ident "books", "books", false, none, [], [⟨"books", "year", .ascending⟩], some 2, none⟩

def pricedStatement : Statement where
  part.items := [⟨[.column "books" "id"], "id"⟩, ⟨[.column "books" "year"], "year"⟩,
    ⟨[.column "books" "price"], "price"⟩]
  part.tables := [.page pricedPage]
  part.conditions := []
  part.orders := [⟨"books", "price", .ascending⟩, ⟨"books", "year", .ascending⟩]
  params := .empty

theorem statement_firstBook :
    statement .sqlite (.table pricedTable pricedNodes) none = .ok pricedStatement := by rfl

theorem statement_page_orders_priced : PageOrders pricedTable pricedPage ∧
    contribution pricedTable = [⟨"books", "price", .ascending⟩, ⟨"books", "year", .ascending⟩] := by
  obtain ⟨orders, pages⟩ := statement_page_orders build_priced plan_firstBook
    (List.mem_singleton.mpr rfl) statement_firstBook
  cases pages with
  | cons first _ => exact ⟨first, orders.symm⟩

def pricedBook (price year : Int64) : Record := fun source =>
  if source = qualified "books" "price" then .int price else .int year

/-- Of two books the earlier one is the dearer. The statement has it behind the later one, which
was only fetched to show that there are more, and which is now the book that the page shows. -/
theorem page_behind_price : priced.plan false () firstBook = .ok (.table pricedTable pricedNodes) ∧
    statement .sqlite (.table pricedTable pricedNodes) none = .ok pricedStatement ∧
    pricedStatement.part.pages = [pricedPage] ∧
    ¬pricedPage.order <+: pricedStatement.part.orders ∧
    pricedPage.Selects .integers [pricedBook 9 1990, pricedBook 5 1995]
      [pricedBook 9 1990, pricedBook 5 1995] ∧
    pricedStatement.Returns .integers [pricedBook 9 1990, pricedBook 5 1995]
      [pricedBook 5 1995, pricedBook 9 1990] ∧
    window false (some 1) [pricedBook 5 1995, pricedBook 9 1990] ≠
      window false (some 1) [pricedBook 9 1990, pricedBook 5 1995] := by
  have selects : pricedPage.Selects .integers [pricedBook 9 1990, pricedBook 5 1995]
      [pricedBook 9 1990, pricedBook 5 1995] := by
    refine ⟨rfl, _, ⟨List.Perm.refl _, ?_⟩, rfl⟩
    decide +kernel
  refine ⟨plan_firstBook, statement_firstBook, rfl, by decide, selects, ?_, ?_⟩
  · refine ⟨pricedPage, _, rfl, selects, ⟨List.Perm.swap _ _ _, ?_⟩⟩
    decide +kernel
  · intro same
    have price := congrArg (fun rows => rows.map (fun ρ => (ρ (qualified "books" "price")).int?)) same
    revert price
    decide +kernel

end Priced

end Sql

end TreeQuery
