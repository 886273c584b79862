import TreeQuery.Proofs.Plan.Planned
import TreeQuery.Proofs.Success
import TreeQuery.Sql.OfPlan

/-!
The statement of a root table that is read a page at a time and has no joined tables. It selects the
columns of the table from a single page.
-/

namespace TreeQuery

open Plan (Leaves Node Table)

/-- The root of a plan, read a page at a time. -/
structure Plan.Table.PagedRoot (t : Table) : Prop where
  paginate : t.paginate = true
  join : t.join = none
  junction : t.junction = none
  batch : t.batch = none

namespace Sql

variable {fl : Flavor} {t : Table} {children : List Node} {q : Plan.Paging}

theorem nodePart_leaf (fl : Flavor) (t : Table) {n : Node} (leaf : n.table? = none)
    (path : List String) (ps : Params) :
    ∃ items, (nodePart fl (some t) path none n).run ps = .ok (⟨items, [], [], []⟩, ps) := by
  cases n with
  | table u below => cases leaf
  | column c => exact ⟨_, rfl⟩
  | composite c => exact ⟨_, rfl⟩
  | noop name l => exact ⟨_, rfl⟩

/-- Columns only add what is selected. -/
theorem childrenPart_leaves (fl : Flavor) (t : Table) (leaves : Leaves children)
    (path : List String) (ps : Params) :
    ∃ items, (childrenPart fl t path children).run ps = .ok (⟨items, [], [], []⟩, ps) := by
  induction children with
  | nil => exact ⟨[], rfl⟩
  | cons n children inductionHypothesis =>
    obtain ⟨leaf, leaves⟩ := List.forall_mem_cons.mp leaves
    obtain ⟨here, first⟩ := nodePart_leaf fl t leaf path ps
    obtain ⟨rest, later⟩ := inductionHypothesis leaves
    refine ⟨here ++ rest, ?_⟩
    apply run_bind_ok.mpr ⟨_, _, first, ?_⟩
    exact run_bind_ok.mpr ⟨_, _, later, run_pure_ok.mpr ⟨rfl, rfl⟩⟩

theorem getPaging_run {q : Plan.Paging} (h : t.paging = .ok q) (ps : Params) :
    (getPaging t).run ps = .ok (q, ps) := by
  apply run_lift_ok.mpr
  rw [h]
  exact ⟨rfl, rfl⟩

section Root

variable {own past : List Fragment} {ps ps' : Params}

theorem rootPage_run (asked : t.paging = .ok q)
    (supported : checkSupport fl t.location false q.isOffset = .ok ()) (ps₀ : Params)
    (filtered : (filter (.ofTable t.label) t.filter).run ps₀ = .ok (own, ps))
    (cursor : (cursorCondition q).run ps = .ok (past, ps')) : (rootPage fl t).run ps₀ =
      .ok ([.page (pageOf t.name t.label none (own ++ past) q)], ps') := by
  have paging : (supportedPaging fl t false).run ps₀ = .ok (q, ps₀) := by
    apply run_bind_ok.mpr ⟨_, _, getPaging_run asked ps₀, ?_⟩
    apply run_bind_ok.mpr ⟨(), ps₀, run_lift_ok.mpr ⟨supported, rfl⟩, ?_⟩
    exact run_pure_ok.mpr ⟨rfl, rfl⟩
  apply run_bind_ok.mpr ⟨_, _, paging, ?_⟩
  apply run_bind_ok.mpr ⟨_, _, filtered, ?_⟩
  exact run_bind_ok.mpr ⟨_, _, cursor, run_pure_ok.mpr ⟨rfl, rfl⟩⟩

/-- The filter of the table and the cursor stand in the page, and leave nothing for the statement
around it but the order. -/
theorem statement_pagedRoot (root : t.PagedRoot) (leaves : Leaves children)
    (asked : t.paging = .ok q)
    (supported : checkSupport fl t.location false q.isOffset = .ok ())
    (filtered : (filter (.ofTable t.label) t.filter).run .empty = .ok (own, ps))
    (cursor : (cursorCondition q).run ps = .ok (past, ps')) :
    ∃ st, statement fl (.table t children) none = .ok st ∧ st.params = ps' ∧
      st.part.tables = [.page (pageOf t.name t.label none (own ++ past) q)] ∧
      st.part.conditions = [] ∧ st.part.orders = tableOrder t q.isBackward := by
  have conditionsPart : (tableFilter none t).run .empty = .ok ([], .empty) := by
    simp [tableFilter, root.paginate]
    rfl
  have ordersPart : (orderPart none t).run .empty = .ok (tableOrder t q.isBackward, .empty) := by
    simp only [orderPart, continues, root.paginate]
    apply run_bind_ok.mpr ⟨_, _, getPaging_run asked _, ?_⟩
    exact run_pure_ok.mpr ⟨rfl, rfl⟩
  have relation : (relationPart fl none [] none t).run .empty =
      .ok (tablesOnly [.page (pageOf t.name t.label none (own ++ past) q)], ps') := by
    rw [relationPart, root.join, root.junction, root.batch]
    simp only [rootPart, root.paginate, Option.isSome_none, Bool.false_eq_true, if_false, if_true]
    exact run_bind_ok.mpr
      ⟨_, _, rootPage_run asked supported _ filtered cursor, run_pure_ok.mpr ⟨rfl, rfl⟩⟩
  obtain ⟨items, below⟩ := childrenPart_leaves fl t leaves [t.label] ps'
  have here : (tablePart fl none [] none t).run .empty = .ok (⟨[], [.page (pageOf t.name t.label none
      (own ++ past) q)], [], tableOrder t q.isBackward⟩, ps') := by
    apply run_bind_ok.mpr ⟨_, _, conditionsPart, ?_⟩
    apply run_bind_ok.mpr ⟨_, _, ordersPart, ?_⟩
    refine run_bind_ok.mpr ⟨_, _, relation, run_pure_ok.mpr ⟨?_, rfl⟩⟩
    exact congrArg (Part.mk _ _ _) (List.append_nil _)
  have whole : (nodePart fl none [] none (.table t children)).run .empty = .ok (⟨items,
      [.page (pageOf t.name t.label none (own ++ past) q)], [], tableOrder t q.isBackward⟩,
      ps') := by
    have continuing : continues none t = true := rfl
    apply run_bind_ok.mpr ⟨_, _, here, ?_⟩
    rw [if_pos continuing]
    refine run_bind_ok.mpr ⟨_, _, below, run_pure_ok.mpr ⟨?_, rfl⟩⟩
    exact congrArg (Part.mk _ _ _) (List.append_nil _)
  exact ⟨⟨_, ps'⟩, map_eq_ok.mpr ⟨_, whole, rfl⟩, rfl, rfl, rfl, rfl⟩

end Root

end Sql

end TreeQuery
