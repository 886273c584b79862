import TreeQuery.Proofs.Plan.Closed
import TreeQuery.Sql.OfPlan

/-!
Errors of statements that no plan can run into: every table below another one is reached in some
way, and so every column stands below a table.
-/

namespace TreeQuery

open Plan (Node Paging PagingError Table)

namespace Plan

def PagingError.Internal : PagingError → Prop
  | .argument (.emptyScope _) => True
  | _ => False

namespace Table

variable (t : Table)

theorem count?_avoids (name : String) : Avoids PagingError.Internal (t.count? name) := by
  apply Avoids.mapError_of
  rw [Arguments.count?]
  split
  · exact .ok _
  split
  · split
    · exact .ok _
    · exact .error id
  · exact .error id

theorem cursor?_avoids (name : String) : Avoids PagingError.Internal (t.cursor? name) := by
  rw [cursor?]
  split
  · exact .ok _
  · exact .ok _
  · exact .error id

theorem keysetBounds_avoids (l : Location) (first last : Option Nat) (after before : Option String) :
    Avoids PagingError.Internal (keysetBounds l first last after before) := by
  unfold keysetBounds
  split <;> first | exact .ok _ | exact .error id

theorem keysetPage_avoids (key : SortKey) (label : String) :
    Avoids PagingError.Internal (t.keysetPage key label) := by
  apply (t.count?_avoids "first").bind
  intro first _
  apply (t.count?_avoids "last").bind
  intro last _
  apply (t.cursor?_avoids "after").bind
  intro after _
  apply (t.cursor?_avoids "before").bind
  intro before _
  apply (keysetBounds_avoids t.location first last after before).bind
  intro ⟨count, backward, cursor⟩ _
  cases cursor with
  | none => exact .ok _
  | some c => exact (Avoids.mapError (fun _ => id)).bind (fun _ _ => .ok _)

theorem offsetPage_avoids (order : OrderBy) (label : String) :
    Avoids PagingError.Internal (t.offsetPage order label) := by
  rw [offsetPage]
  split
  · exact .error id
  apply (t.count?_avoids "first").bind
  intro first _
  apply (t.cursor?_avoids "after").bind
  intro after _
  split
  · exact .ok _
  apply (Avoids.mapError (fun _ => id)).bind
  intro n _
  split
  · exact .ok _
  · exact .error id

theorem paging_avoids : Avoids PagingError.Internal t.paging := by
  rw [paging]
  split
  · exact (t.keysetPage_avoids _ _).map _
  · exact (t.offsetPage_avoids _ _).map _
  · exact .error id

end Table

end Plan

namespace Sql

def SqlError.Internal : SqlError → Prop
  | .notATable _ | .emptyScope _ | .orphanColumn _ | .noRelation _ => True
  | .paging e => e.Internal
  | _ => False

/-- The computation does not end with an internal error. -/
abbrev Sure {α : Type} (m : Binder α) : Prop := AvoidsFrom SqlError.Internal m

section Conditions

variable (a : Labels)

theorem bindValue_avoids (v : Value) : Sure (bindValue v) := .modifyGet _

theorem bindValues_avoids (vs : List Value) : Sure (bindValues vs) := by
  induction vs with
  | nil => exact .pure _
  | cons v vs inductionHypothesis =>
    exact (bindValue_avoids v).bind (fun _ => inductionHypothesis.bind (fun _ => .pure _))

theorem resolve_avoids (r : Role) : Avoids SqlError.Internal (a.resolve r) := by
  rw [Labels.resolve]
  split
  · exact .ok _
  · exact .error id

theorem columnToken_avoids (c : ColumnRef) : Sure (columnToken a c) :=
  .lift_bind (resolve_avoids a c.role) (fun _ _ => .pure _)

theorem comparison_avoids (column : Token) (op : CompareOp) (v : Value) :
    Sure (comparison column op v) := by
  unfold comparison
  split
  · exact .pure _
  · exact .pure _
  · exact (bindValue_avoids v).bind (fun _ => .pure _)

theorem membership_avoids (column : Token) (vs : List Value) : Sure (membership column vs) :=
  (bindValues_avoids vs).bind (fun _ => .pure _)

theorem raw_avoids (sql : String) (params : Fields Value) : Sure (raw a sql params) := by
  rw [raw]
  induction pieces (Fields.contains params) sql with
  | nil => exact .pure _
  | cons p pieces inductionHypothesis =>
    have token : Sure (pieceToken a params p) := by
      cases p with
      | char c => exact .pure _
      | role r => exact .lift_bind (resolve_avoids a r) (fun _ _ => .pure _)
      | param name => exact bindValue_avoids _
    exact token.bind (fun _ => inductionHypothesis.bind (fun _ => .pure _))

mutual

theorem condition_avoids : (c : Condition) → Sure (condition a c)
  | .compare c op v => by
    rw [condition]
    exact (columnToken_avoids a c).bind (fun column => comparison_avoids column op v)
  | .compareColumns l op r => by
    rw [condition]
    exact (columnToken_avoids a l).bind
      (fun _ => (columnToken_avoids a r).bind (fun _ => .pure _))
  | .within c vs => by
    rw [condition]
    refine .ite (fun _ => .pure _) (fun _ => ?_)
    exact (columnToken_avoids a c).bind (fun column => membership_avoids column vs)
  | .raw sql ps => by
    rw [condition]
    exact raw_avoids a sql ps
  | .group cs => by
    rw [condition]
    exact .ite (fun _ => .pure _) (fun _ => (clauseTokens_avoids true cs).bind (fun _ => .pure _))
  | .exists sql ps => by
    rw [condition]
    exact (raw_avoids a sql ps).bind (fun _ => .pure _)

theorem clauseTokens_avoids (first : Bool) : (cs : List Clause) → Sure (clauseTokens a first cs)
  | [] => .pure _
  | .mk _ _ c :: cs => by
    rw [clauseTokens]
    exact (condition_avoids c).bind (fun _ => (clauseTokens_avoids false cs).bind (fun _ => .pure _))

end

theorem predicate_avoids (cs : List Clause) : Sure (predicate a cs) := by
  rw [predicate]
  exact .ite (fun _ => .pure _) (fun _ => (clauseTokens_avoids a true cs).bind (fun _ => .pure _))

theorem filter_avoids (cs : List Clause) : Sure (filter a cs) := by
  rw [filter]
  exact .ite (fun _ => .pure _) (fun _ => (predicate_avoids a cs).bind (fun _ => .pure _))

end Conditions

section Pages

variable (fl : Flavor) (t : Table)

theorem getPaging_avoids : Sure (getPaging t) := by
  apply AvoidsFrom.lift
  apply Avoids.mapError_of
  exact t.paging_avoids

theorem checkSupport_avoids (l : Location) (lateral offset : Bool) :
    Avoids SqlError.Internal (checkSupport fl l lateral offset) := by
  unfold checkSupport
  split
  · exact .error id
  split
  · exact .error id
  · exact .ok _

theorem supportedPaging_avoids (lateral : Bool) : Sure (supportedPaging fl t lateral) := by
  apply (getPaging_avoids t).bind
  intro p
  exact .lift_bind (checkSupport_avoids fl t.location lateral p.isOffset) (fun _ _ => .pure _)

theorem cursorTerms_avoids (p : Plan.KeysetPage) (key : SortKey) (vs : List Value) :
    Sure (cursorTerms p key vs) := by
  induction key generalizing vs with
  | nil => exact .pure _
  | cons c key inductionHypothesis =>
    cases vs with
    | nil => exact .pure _
    | cons v vs =>
      exact (bindValue_avoids v).bind (fun _ => (inductionHypothesis vs).bind (fun _ => .pure _))

theorem cursorCondition_avoids (p : Paging) : Sure (cursorCondition p) := by
  cases p with
  | offset p => exact .pure _
  | keyset p =>
    rw [cursorCondition]
    split
    · exact .pure _
    · exact (cursorTerms_avoids p p.key _).bind (fun _ => .pure _)

theorem scopeTable_avoids (column : String) (scope : List Value) :
    Sure (scopeTable column scope) := (bindValues_avoids scope).bind (fun _ => .pure _)

theorem innerJoin_avoids (j : Plan.Junction) (toChild : List Clause) :
    Sure (innerJoin t j toChild) := by
  rw [innerJoin]
  exact .ite (fun _ => .pure _) (fun _ => (predicate_avoids _ toChild).bind (fun _ => .pure _))

theorem rootPage_avoids : Sure (rootPage fl t) := by
  apply (supportedPaging_avoids fl t false).bind
  intro p
  apply (filter_avoids _ t.filter).bind
  intro own
  exact (cursorCondition_avoids p).bind (fun _ => .pure _)

theorem joinedPage_avoids (parent : Table) (join : List Clause) :
    Sure (joinedPage fl parent t join) := by
  apply (supportedPaging_avoids fl t true).bind
  intro p
  apply (filter_avoids _ join).bind
  intro joined
  apply (filter_avoids _ t.filter).bind
  intro own
  apply (cursorCondition_avoids p).bind
  intro past
  exact (predicate_avoids _ join).bind (fun _ => .pure _)

theorem batchPage_avoids (keys : Plan.Batch) (scope : List Value) :
    Sure (batchPage fl t keys scope) := by
  apply (supportedPaging_avoids fl t true).bind
  intro p
  apply (scopeTable_avoids _ scope).bind
  intro keyed
  apply (filter_avoids _ t.filter).bind
  intro own
  exact (cursorCondition_avoids p).bind (fun _ => .pure _)

theorem junctionPage_avoids (parent : Table) (j : Plan.Junction) (fromParent toChild : List Clause) :
    Sure (junctionPage fl parent t j fromParent toChild) := by
  apply (supportedPaging_avoids fl t true).bind
  intro p
  apply (filter_avoids _ fromParent).bind
  intro joined
  apply (filter_avoids _ j.filter).bind
  intro linked
  apply (filter_avoids _ t.filter).bind
  intro own
  apply (cursorCondition_avoids p).bind
  intro past
  apply (innerJoin_avoids t j toChild).bind
  intro inner
  exact (predicate_avoids _ fromParent).bind (fun _ => .pure _)

theorem junctionBatchPage_avoids (j : Plan.Junction) (keys : Plan.Batch) (scope : List Value)
    (join : List Clause) : Sure (junctionBatchPage fl t j keys scope join) := by
  apply (supportedPaging_avoids fl t true).bind
  intro p
  apply (scopeTable_avoids _ scope).bind
  intro keyed
  apply (filter_avoids _ j.filter).bind
  intro linked
  apply (filter_avoids _ t.filter).bind
  intro own
  apply (cursorCondition_avoids p).bind
  intro past
  apply (innerJoin_avoids t j join).bind
  intro inner
  exact (predicate_avoids _ join).bind (fun _ => .pure _)

end Pages

section Parts

variable (fl : Flavor) (parent : Option Table) (t : Table)

theorem tableFilter_avoids : Sure (tableFilter parent t) := by
  rw [tableFilter]
  refine .ite (fun _ => .pure _) (fun _ => ?_)
  have own (linked : List Fragment) :
      Sure (do return linked ++ (← filter (.ofTable t.label) t.filter)) :=
    (filter_avoids _ t.filter).bind (fun _ => .pure _)
  split
  · exact (filter_avoids _ _).bind own
  · exact (AvoidsFrom.pure _).bind own

theorem orderPart_avoids : Sure (orderPart parent t) := by
  rw [orderPart]
  refine .ite (fun _ => .pure _) (fun _ => .ite (fun _ => ?_) (fun _ => .pure _))
  exact (getPaging_avoids t).bind (fun _ => .pure _)

theorem joinPart_avoids (join : List Clause) : Sure (joinPart fl parent t join) := by
  unfold joinPart
  split
  · exact .throw id
  refine .ite (fun _ => ?_) (fun _ => ?_)
  · exact (joinedPage_avoids fl t _ join).bind (fun _ => .pure _)
  · exact (predicate_avoids _ join).bind (fun _ => .pure _)

theorem requireScope_avoids (scope : Option (List Value)) :
    Avoids SqlError.Internal (requireScope t scope) := by
  cases scope with
  | none => exact .error id
  | some vs => exact .ok _

theorem junctionBatchPart_avoids (path : List String) (scope : Option (List Value))
    (j : Plan.Junction) (b : Plan.JunctionBatch) :
    Sure (junctionBatchPart fl parent path scope t j b) := by
  unfold junctionBatchPart
  split
  · exact .pure _
  split
  · exact .throw id
  refine .lift_bind (requireScope_avoids t scope) (fun scope _ => ?_)
  refine .ite (fun _ => ?_) (fun _ => ?_)
  · exact (junctionBatchPage_avoids fl t j b.keys scope _).bind (fun _ => .pure _)
  · exact (predicate_avoids _ _).bind
      (fun _ => (membership_avoids _ scope).bind (fun _ => .pure _))

theorem junctionPart_avoids (j : Plan.Junction) : Sure (junctionPart fl parent t j) := by
  unfold junctionPart
  split
  · exact .throw id
  split
  · exact .throw id
  · exact .throw id
  rename_i p _ _ fromParent toChild _ _
  have child (link : List TableItem) : Sure (do
      let on ← predicate (.ofJoin j.label t.label) toChild
      return tablesOnly (link ++ [.leftJoin t.name t.label false on])) :=
    (predicate_avoids _ toChild).bind (fun _ => .pure _)
  refine .ite (fun _ => ?_) (fun _ => ?_)
  · exact (junctionPage_avoids fl t p j fromParent toChild).bind child
  · exact (predicate_avoids _ fromParent).bind (fun _ => (AvoidsFrom.pure _).bind child)

theorem batchPart_avoids (path : List String) (scope : Option (List Value)) (b : Plan.Batch) :
    Sure (batchPart fl parent path scope t b) := by
  unfold batchPart
  split
  · exact .pure _
  refine .lift_bind (requireScope_avoids t scope) (fun scope _ => ?_)
  refine .ite (fun _ => ?_) (fun _ => ?_)
  · exact (batchPage_avoids fl t b scope).bind (fun _ => .pure _)
  · exact (membership_avoids _ scope).bind (fun _ => .pure _)

/-- A table of no relation can only be at the root. -/
theorem rootPart_avoids : Sure (rootPart fl none t) := by
  rw [rootPart, if_neg (by simp)]
  refine .ite (fun _ => ?_) (fun _ => .pure _)
  exact (rootPage_avoids fl t).bind (fun _ => .pure _)

variable {parent t} (related : parent.isSome → t.relationCount ≠ 0)

include related

theorem relationPart_avoids (path : List String) (scope : Option (List Value)) :
    Sure (relationPart fl parent path scope t) := by
  unfold relationPart
  split
  · exact joinPart_avoids fl parent t _
  · split
    · exact junctionBatchPart_avoids fl parent t path scope _ _
    · exact junctionPart_avoids fl parent t _
  · exact batchPart_avoids fl parent t path scope _
  · rename_i directly through many
    cases parent with
    | none => exact rootPart_avoids fl t
    | some p => exact absurd (by simp [Table.relationCount, *]) (related rfl)

theorem tablePart_avoids (path : List String) (scope : Option (List Value)) :
    Sure (tablePart fl parent path scope t) := by
  apply (tableFilter_avoids parent t).bind
  intro conditions
  apply (orderPart_avoids parent t).bind
  intro orders
  exact (relationPart_avoids fl related path scope).bind (fun _ => .pure _)

end Parts

section Nodes

variable (fl : Flavor)

mutual

/-- Below a table, whatever the plan has can be written. -/
theorem nodePart_avoids (p : Table) (path : List String) : (n : Node) →
    (∀ t, n.table? = some t → t.relationCount ≠ 0) → n.Everywhere Table.NestsRelated →
    Sure (nodePart fl (some p) path none n)
  | .table t children, related, below => by
    rw [nodePart]
    apply (tablePart_avoids fl (fun _ => related t rfl) path none).bind
    intro here
    refine .ite (fun _ => ?_) (fun _ => .pure _)
    exact (childrenPart_avoids t _ children below.1 below.2).bind (fun _ => .pure _)
  | .column _, _, _ | .composite _, _, _ | .noop _ _, _, _ => .pure _

theorem childrenPart_avoids (p : Table) (path : List String) : (children : List Node) →
    (∀ t ∈ Node.tables children, t.relationCount ≠ 0) →
    Node.EverywhereIn Table.NestsRelated children → Sure (childrenPart fl p path children)
  | [], _, _ => .pure _
  | n :: r, related, below => by
    rw [childrenPart]
    have among (t : Table) (own : n.table? = some t) : t ∈ Node.tables (n :: r) :=
      List.mem_filterMap.mpr ⟨n, List.mem_cons_self .., own⟩
    have later (t : Table) (member : t ∈ Node.tables r) : t ∈ Node.tables (n :: r) := by
      rw [← List.singleton_append, Node.tables_append]
      exact List.mem_append_right _ member
    apply (nodePart_avoids p path n (fun t own => related t (among t own)) below.1).bind
    intro here
    exact (childrenPart_avoids p path r (fun t member => related t (later t member)) below.2).bind
      (fun _ => .pure _)

end

/-- The statement of a planned table fails neither for a column nor for a table that stands in the
wrong place, if there are keys whenever it is of a batch. -/
theorem compile_avoids {t : Table} {children : List Node}
    (nests : (Node.table t children).Everywhere Table.NestsRelated) {scope : Option (List Value)}
    (keyed : scope ≠ some []) :
    Avoids SqlError.Internal (compile fl (.table t children) scope) := by
  have part : Sure (nodePart fl none [] scope (.table t children)) := by
    rw [nodePart]
    apply (tablePart_avoids fl (by simp) [] scope).bind
    intro here
    refine .ite (fun _ => ?_) (fun _ => .pure _)
    exact (childrenPart_avoids fl t _ children nests.1 nests.2).bind (fun _ => .pure _)
  have keys : ¬scope.any List.isEmpty := by
    cases scope with
    | none => simp
    | some vs => simpa [List.isEmpty_iff] using keyed
  rw [compile, statement]
  simp only [Node.table?, if_neg keys]
  exact ((part .empty).map _).map _

end Nodes

end Sql

end TreeQuery
