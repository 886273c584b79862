import TreeQuery.Proofs.Plan.Boundaries
import TreeQuery.Proofs.Plan.Taking
import TreeQuery.Proofs.Plan.Walk

/-!
The labels of a plan's tables and junctions are all different. A planner only ever takes labels that
are free, so those that two of its steps take differ.
-/

namespace TreeQuery.Plan

/-- The labels under which a statement has a table, its junction's first. -/
def Table.labels (t : Table) : List String := (t.junction.map Junction.label).toList ++ [t.label]

theorem Table.label_mem_labels (t : Table) : t.label ∈ t.labels :=
  List.mem_append_right _ (List.mem_singleton_self _)

namespace Node

mutual

def tableLabels : Node → List String
  | .table t children => t.labels ++ tableLabelsIn children
  | _ => []

def tableLabelsIn : List Node → List String
  | [] => []
  | n :: r => tableLabels n ++ tableLabelsIn r

end

theorem tableLabelsIn_append (a b : List Node) :
    tableLabelsIn (a ++ b) = tableLabelsIn a ++ tableLabelsIn b := by
  induction a with
  | nil => rfl
  | cons n a inductionHypothesis =>
    rw [List.cons_append, tableLabelsIn, tableLabelsIn, inductionHypothesis, List.append_assoc]

theorem tableLabelsIn_leaves {nodes : List Node} (leaves : Leaves nodes) :
    tableLabelsIn nodes = [] := by
  induction nodes with
  | nil => rfl
  | cons n nodes inductionHypothesis =>
    obtain ⟨leaf, others⟩ := List.forall_mem_cons.mp leaves
    rw [tableLabelsIn, inductionHypothesis others, List.append_nil]
    cases n with
    | table t children => cases leaf
    | column _ | composite _ | noop _ _ => rfl

theorem label_mem_tableLabels (t : Table) (children : List Node) :
    t.label ∈ tableLabels (.table t children) := by
  rw [tableLabels]
  exact List.mem_append_left _ t.label_mem_labels

theorem mem_tableLabelsIn {nodes : List Node} {t : Table} {children : List Node}
    (member : .table t children ∈ nodes) : t.label ∈ tableLabelsIn nodes := by
  induction nodes with
  | nil => cases member
  | cons n nodes inductionHypothesis =>
    rw [tableLabelsIn, List.mem_append]
    rcases List.mem_cons.mp member with rfl | later
    · exact .inl (label_mem_tableLabels t children)
    · exact .inr (inductionHypothesis later)

/-- Where all labels differ, a label belongs to one table. -/
theorem eq_of_label {nodes : List Node} (distinct : (tableLabelsIn nodes).Nodup) {t u : Table}
    {children below : List Node} (first : .table t children ∈ nodes)
    (second : .table u below ∈ nodes) (same : t.label = u.label) : t = u ∧ children = below := by
  induction nodes with
  | nil => cases first
  | cons n nodes inductionHypothesis =>
    rw [tableLabelsIn, List.nodup_append] at distinct
    obtain ⟨_, later, apart⟩ := distinct
    rcases List.mem_cons.mp first with rfl | first'
    · rcases List.mem_cons.mp second with equal | second'
      · cases equal
        exact ⟨rfl, rfl⟩
      · exact (apart _ (label_mem_tableLabels t children) _ (mem_tableLabelsIn second') same).elim
    · rcases List.mem_cons.mp second with rfl | second'
      · exact (apart _ (label_mem_tableLabels u below) _ (mem_tableLabelsIn first') same.symm).elim
      · exact inductionHypothesis later first' second'

mutual

theorem everywhere_distinct : (n : Node) → n.tableLabels.Nodup →
    n.Everywhere (fun _ children => (tableLabelsIn children).Nodup)
  | .table t children, h => by
    have below := (List.nodup_append.mp h).2.1
    exact ⟨below, everywhereIn_distinct children below⟩
  | .column _, _ | .composite _, _ | .noop _ _, _ => trivial

theorem everywhereIn_distinct : (nodes : List Node) → (tableLabelsIn nodes).Nodup →
    EverywhereIn (fun _ children => (tableLabelsIn children).Nodup) nodes
  | [], _ => trivial
  | n :: r, h => by
    obtain ⟨here, later, _⟩ := List.nodup_append.mp h
    exact ⟨everywhere_distinct n here, everywhereIn_distinct r later⟩

end

mutual

theorem tableLabels_boundary : (n : Node) → ∀ b ∈ n.boundaries,
    (Node.table b.1 b.2).tableLabels.Sublist n.tableLabels
  | .table t children, b, hb => by
    have below (h : b ∈ boundariesIn children) :
        (Node.table b.1 b.2).tableLabels.Sublist (tableLabels (.table t children)) :=
      (tableLabels_boundaryIn children b h).trans (List.sublist_append_right ..)
    rw [boundaries] at hb
    split at hb
    · rcases List.mem_cons.mp hb with rfl | hb
      · exact List.Sublist.refl _
      · exact below hb
    · exact below hb
  | .column _, b, hb | .composite _, b, hb | .noop _ _, b, hb => by
    exact (List.not_mem_nil hb).elim

theorem tableLabels_boundaryIn : (nodes : List Node) → ∀ b ∈ boundariesIn nodes,
    (Node.table b.1 b.2).tableLabels.Sublist (tableLabelsIn nodes)
  | [], b, hb => (List.not_mem_nil hb).elim
  | n :: r, b, hb => by
    rw [boundariesIn] at hb
    rw [tableLabelsIn]
    rcases List.mem_append.mp hb with here | later
    · exact (tableLabels_boundary n b here).trans (List.sublist_append_left ..)
    · exact (tableLabels_boundaryIn r b later).trans (List.sublist_append_right ..)

end

theorem tableLabels_statementRoot {root : Node} {b : Table × List Node}
    (hb : b ∈ root.statementRoots) :
    (Node.table b.1 b.2).tableLabels.Sublist root.tableLabels := by
  cases root with
  | table t children =>
    rcases List.mem_cons.mp hb with rfl | below
    · exact List.Sublist.refl _
    · exact (tableLabels_boundaryIn children b below).trans (List.sublist_append_right ..)
  | column _ | composite _ | noop _ _ => cases hb

end Node

/-- Some labels that were free before are taken after. -/
structure Takes (ns : Namespace) (labels : List String) (ns' : Namespace) : Prop where
  kept : ns.used ⊆ ns'.used
  free : ∀ l ∈ labels, l ∉ ns.used
  taken : labels ⊆ ns'.used
  distinct : labels.Nodup

namespace Takes

variable {ns ns₁ ns' : Namespace} {a b : List String}

theorem none (kept : ns.used ⊆ ns'.used) : Takes ns [] ns' := ⟨kept, by simp, by simp, .nil⟩

theorem append (first : Takes ns a ns₁) (later : Takes ns₁ b ns') : Takes ns (a ++ b) ns' where
  kept := List.Subset.trans first.kept later.kept
  free := List.forall_mem_append.mpr
    ⟨first.free, fun l hl used => later.free l hl (first.kept used)⟩
  taken := List.append_subset.mpr ⟨List.Subset.trans first.taken later.kept, later.taken⟩
  distinct := by
    refine List.nodup_append.mpr ⟨first.distinct, later.distinct, ?_⟩
    rintro l ha _ hb rfl
    exact later.free l hb (first.taken ha)

theorem perm (h : Takes ns a ns') (same : a.Perm b) : Takes ns b ns' where
  kept := h.kept
  free := fun l hl => h.free l (same.mem_iff.mpr hl)
  taken := List.Subset.trans same.symm.subset h.taken
  distinct := same.nodup_iff.mp h.distinct

/-- What is taken differs from what was taken before. -/
theorem distinct_before (h : Takes ns a ns') (before : ns.used.Nodup) : (ns.used ++ a).Nodup := by
  refine List.nodup_append.mpr ⟨before, h.distinct, ?_⟩
  rintro l used _ ha rfl
  exact h.free l ha used

end Takes

variable {Ctx : Type} {s : Schema Ctx} {cx : Ctx} {config : TableConfig Ctx} {t : Table}

section Taken

variable {ns ns' : Namespace}

theorem tableLabel_takes {name label : String}
    (ran : (tableLabel name).run ns = .ok (label, ns')) : Takes ns [label] ns' := by
  obtain ⟨_, fresh, used⟩ := Namespace.takeTable_spec (Except.ok.inj ran)
  refine ⟨?_, ?_, ?_, List.nodup_singleton label⟩
  · rw [used]
    exact List.subset_cons_self _ _
  · simpa using fresh
  · rw [used]
    simp

theorem planJunction?_takes {args : Arguments} {c : Option (JunctionConfig Ctx)}
    {j : Option Junction} (ran : (planJunction? args cx c).run ns = .ok (j, ns')) :
    Takes ns (j.map Junction.label).toList ns' := by
  cases c with
  | none =>
    obtain ⟨rfl, rfl⟩ := run_pure_ok.mp ran
    exact .none (List.Subset.refl _)
  | some c =>
    obtain ⟨label, ns₁, first, ran⟩ := run_bind_ok.mp ran
    obtain ⟨batch, ns₂, later, ran⟩ := run_bind_ok.mp ran
    obtain ⟨rfl, rfl⟩ := run_pure_ok.mp ran
    have keys : Takes ns₁ [] ns₂ := .none ((planJunctionBatch?_onlyTakes _ _).reached later).kept
    exact (tableLabel_takes first).append keys

theorem planTable_takes {field : Field Ctx} {many : Bool} {key : String} {args : Arguments}
    {l : Location} (ran : (planTable cx field config many key args l).run ns = .ok (t, ns')) :
    Takes ns t.labels ns' := by
  obtain ⟨label, ns₁, own, ran⟩ := run_bind_ok.mp ran
  obtain ⟨batch, ns₂, keys, ran⟩ := run_bind_ok.mp ran
  obtain ⟨junction, ns₃, linked, ran⟩ := run_bind_ok.mp ran
  obtain ⟨rfl, rfl⟩ := run_pure_ok.mp ran
  have keys : Takes ns₁ [] ns₂ := .none ((planBatch?_onlyTakes _).reached keys).kept
  have both := (tableLabel_takes own).append (keys.append (planJunction?_takes linked))
  exact both.perm List.perm_append_comm

theorem LeafSteps.takes {type : ObjectType Ctx} {x : Selection} {nodes : List Node}
    (h : LeafSteps cx type config t x ns nodes ns') : Takes ns [] ns' := .none h.reaches.kept

theorem Table.PlannedBy.takes {x : Selection} {field : Field Ctx} {type : ObjectType Ctx}
    {many : Bool} {head below : List Node} {ns₁ ns₂ : Namespace}
    (h : t.PlannedBy s cx x field type config many ns ns₁ head ns₂ below ns')
    (selected : Takes ns₂ (Node.tableLabelsIn below) ns') :
    Takes ns (Node.tableLabels (.table t (head ++ below))) ns' := by
  obtain ⟨_, planned⟩ := h.table
  have own : Takes ns₁ [] ns₂ := .none ((headNodes_onlyTakes _).reached h.head).kept
  have leaves := Node.tableLabelsIn_leaves (headNodes_leaves h.head)
  rw [Node.tableLabels, Node.tableLabelsIn_append, leaves, List.nil_append]
  exact (planTable_takes planned).append (own.append selected)

theorem Walk.takes {type : ObjectType Ctx} {xs : List Selection} {nodes : List Node}
    (h : Walk s cx type config t xs ns nodes ns') : Takes ns (Node.tableLabelsIn nodes) ns' := by
  induction h with
  | nil => exact .none (List.Subset.refl _)
  | leaves steps _ later =>
    rw [Node.tableLabelsIn_append, Node.tableLabelsIn_leaves steps.leaves]
    exact steps.takes.append later
  | table _ _ planned _ _ selected later => exact (planned.takes selected).append later

/-- The labels of all tables and junctions of a plan differ, also from those that are reserved. -/
theorem plan_tableLabels {minify : Bool} {x : Selection} {root : Node}
    (h : s.plan minify cx x = .ok root) : (Namespace.reserved ++ root.tableLabels).Nodup := by
  obtain ⟨ns', ran⟩ := plan_ok h
  rcases planRoot_steps ran with leaf | ⟨_, _, _, _, _, t, _, head, _, below, _, _, _, planned, rfl⟩
  · have none : root.tableLabels = [] := by
      cases root with
      | table _ _ => cases leaf
      | column _ | composite _ | noop _ _ => rfl
    rw [none]
    decide
  · exact (planned.takes planned.walk.takes).distinct_before (List.nodup_singleton _)

end Taken

end TreeQuery.Plan
