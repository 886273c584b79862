import Mathlib.Data.List.DropRight
import Mathlib.Data.List.Pairwise
import TreeQuery.Proofs.Sql.Keyset
import TreeQuery.Sql.OfPlan

/-!
How a database answers the statement of a page: it keeps the rows that meet the conditions, sorts
them and cuts them at the limit. Where an order leaves rows tied, they come in any order.
-/

namespace TreeQuery.Sql

namespace ColumnOrder

variable (order : ColumnOrder)

/-- The comparison of two rows by the terms of an order. -/
def records (os : List OrderTerm) (ρ τ : Record) : Ordering :=
  order.tuples os (ρ.tuple os) (τ.tuple os)

/-- No two rows have the same place in an order. -/
def Separates (os : List OrderTerm) (rows : List Record) : Prop :=
  rows.Pairwise (fun ρ τ => order.records os ρ τ ≠ .eq)

/-- A row meets conditions that are joined by `AND` if they are true of it. -/
def keeps (conditions : List Fragment) (ρ : Record) : Bool :=
  conditions.isEmpty ||
    (read? (between .and conditions)).bind (Formula.eval (order.truth ρ)) == some true

/-- A result has the rows in order. -/
structure Sorts (os : List OrderTerm) (rows result : List Record) : Prop where
  perm : result.Perm rows
  rising : result.Pairwise (fun ρ τ => order.records os ρ τ ≠ .gt)

def sorted (os : List OrderTerm) (rows : List Record) : List Record :=
  rows.mergeSort (fun ρ τ => (order.records os ρ τ).isLE)

end ColumnOrder

/-- The first so many, or all. -/
def upTo {α : Type} : Option Nat → List α → List α
  | some n, l => l.take n
  | none, l => l

/-- The rows that a page without joins has, out of the rows of its table. -/
def Page.Selects (order : ColumnOrder) (p : Page) (table result : List Record) : Prop :=
  p.inner = none ∧ ∃ sorted, order.Sorts p.order (table.filter (order.keeps p.conditions)) sorted ∧
    result = upTo p.limit (sorted.drop (p.offset.getD 0))

/-- The rows that a statement over a single page returns. -/
def Statement.Returns (order : ColumnOrder) (st : Statement) (table result : List Record) : Prop :=
  ∃ p page, st.part.tables = [.page p] ∧ p.Selects order table page ∧
    order.Sorts st.part.orders (page.filter (order.keeps st.part.conditions)) result

def OrderTerm.flip (o : OrderTerm) : OrderTerm := { o with direction := o.direction.flip }

theorem upTo_sublist {α : Type} (limit : Option Nat) (l : List α) : (upTo limit l).Sublist l := by
  cases limit with
  | none => exact List.Sublist.refl l
  | some n => exact List.take_sublist n l

namespace ColumnOrder

variable {order : ColumnOrder} {os : List OrderTerm} {rows result result' : List Record}

theorem records_cons (o : OrderTerm) : order.records (o :: os) =
    compareLex (fun ρ τ => o.direction.applied (order o.source (ρ o.source) (τ o.source)))
      (order.records os) := by
  funext ρ τ
  rfl

theorem records_append (os us : List OrderTerm) (ρ τ : Record) :
    order.records (os ++ us) ρ τ = (order.records os ρ τ).then (order.records us ρ τ) := by
  induction os with
  | nil => rfl
  | cons o os inductionHypothesis =>
    rw [List.cons_append, records_cons, records_cons, compareLex, compareLex, inductionHypothesis,
      Ordering.then_assoc]

/-- Against flipped directions everything compares the other way. -/
theorem tuples_flip (vs ws : List Value) :
    order.tuples (os.map OrderTerm.flip) vs ws = (order.tuples os vs ws).swap := by
  induction os generalizing vs ws with
  | nil => rfl
  | cons o os inductionHypothesis =>
    match vs, ws with
    | [], _ => rfl
    | _ :: _, [] => rfl
    | v :: vs, w :: ws =>
      rw [List.map_cons, tuples, tuples, inductionHypothesis, Ordering.swap_then]
      congr 1
      cases o with
      | mk table column direction =>
        cases direction with
        | ascending => rfl
        | descending => exact Ordering.swap_swap.symm

theorem tuple_flip (ρ : Record) : ρ.tuple (os.map OrderTerm.flip) = ρ.tuple os := by
  rw [Record.tuple, List.map_map]
  rfl

theorem records_flip (ρ τ : Record) :
    order.records (os.map OrderTerm.flip) ρ τ = (order.records os ρ τ).swap := by
  rw [records, tuples_flip, tuple_flip, tuple_flip, records]

theorem Sorts.filter (h : order.Sorts os rows result) (p : Record → Bool) :
    order.Sorts os (rows.filter p) (result.filter p) :=
  ⟨h.perm.filter p, h.rising.filter p⟩

/-- A part of a sorted list is sorted. -/
theorem Sorts.sublist (h : order.Sorts os rows result) (part : result'.Sublist result) :
    order.Sorts os result' result' :=
  ⟨.refl _, h.rising.sublist part⟩

section Total

variable [∀ source, Std.TransCmp (order source)]

instance transCmp_applied (d : Direction) (source : String) :
    Std.TransCmp (fun v w => d.applied (order source v w)) := by
  cases d with
  | ascending => exact inferInstanceAs (Std.TransCmp (order source))
  | descending =>
    have swapped : (fun v w => Direction.applied .descending (order source v w)) =
        fun v w => order source w v := by
      funext v w
      exact Std.OrientedCmp.eq_swap.symm
    rw [swapped]
    exact Std.TransCmp.opposite

instance transCmp_records (os : List OrderTerm) : Std.TransCmp (order.records os) := by
  induction os with
  | nil => exact { eq_swap := rfl, isLE_trans := fun _ _ => rfl }
  | cons o os inductionHypothesis =>
    have column : Std.TransCmp (fun v w => o.direction.applied (order o.source v w)) :=
      transCmp_applied _ _
    have first : Std.TransCmp (fun ρ τ : Record =>
        o.direction.applied (order o.source (ρ o.source) (τ o.source))) :=
      { eq_swap := column.eq_swap, isLE_trans := column.isLE_trans }
    rw [records_cons]
    exact inferInstance

variable (order) in
theorem sorts_sorted (os : List OrderTerm) (rows : List Record) :
    order.Sorts os rows (order.sorted os rows) := by
  refine ⟨List.mergeSort_perm _ _, ?_⟩
  refine (List.pairwise_mergeSort ?_ ?_ rows).imp (fun le => Ordering.isLE_iff_ne_gt.mp le)
  · intro ρ τ υ first second
    exact Std.TransCmp.isLE_trans first second
  · intro ρ τ
    have swapped : order.records os τ ρ = (order.records os ρ τ).swap := Std.OrientedCmp.eq_swap
    rw [swapped]
    cases order.records os ρ τ <;> rfl

theorem Sorts.reverse (h : order.Sorts os rows result) :
    order.Sorts (os.map OrderTerm.flip) rows result.reverse := by
  refine ⟨(List.reverse_perm result).trans h.perm, List.pairwise_reverse.mpr ?_⟩
  refine h.rising.imp (fun {ρ τ} le => ?_)
  have swapped : order.records os τ ρ = (order.records os ρ τ).swap := Std.OrientedCmp.eq_swap
  rw [records_flip, swapped, Ordering.swap_swap]
  exact le

instance symm_records (os : List OrderTerm) :
    Std.Symm (fun ρ τ => order.records os ρ τ ≠ .eq) where
  symm _ _ apart same := apart (Std.OrientedCmp.eq_comm.mp same)

theorem Sorts.separates (h : order.Sorts os rows result) (separate : order.Separates os rows) :
    order.Separates os result :=
  h.perm.symm.pairwise separate ((symm_records os).symm _ _)

/-- Rows with places of their own can be sorted in one way only. -/
theorem Sorts.unique (separate : order.Separates os rows) (h : order.Sorts os rows result)
    (h' : order.Sorts os rows result') : result = result' := by
  apply List.Perm.eq_of_pairwise ?_ h.rising h'.rising (h.perm.trans h'.perm.symm)
  intro ρ τ hρ hτ le ge
  by_contra different
  apply separate.forall (h.perm.mem_iff.mp hρ) (h'.perm.mem_iff.mp hτ) different
  exact Std.OrientedCmp.isLE_antisymm (Ordering.isLE_iff_ne_gt.mpr le)
    (Ordering.isLE_iff_ne_gt.mpr ge)

end Total

end ColumnOrder

end TreeQuery.Sql
