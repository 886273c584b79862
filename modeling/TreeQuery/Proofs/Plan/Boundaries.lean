import TreeQuery.Proofs.Plan.WellFormed
import TreeQuery.Shape

/-!
The tables of a plan that start a statement: its root, and the batch boundaries below.
-/

namespace TreeQuery

namespace Plan.Node

mutual

/-- The batch boundaries among a node and what stands below it. -/
def boundaries : Node → List (Table × List Node)
  | .table t children =>
    if t.isBatch then (t, children) :: boundariesIn children else boundariesIn children
  | _ => []

def boundariesIn : List Node → List (Table × List Node)
  | [] => []
  | n :: r => boundaries n ++ boundariesIn r

end

def statementRoots : Node → List (Table × List Node)
  | .table t children => (t, children) :: boundariesIn children
  | _ => []

variable {p : Table → List Node → Prop}

mutual

/-- What holds of all batch boundaries holds at every table that is one. -/
theorem everywhere_of_boundaries : (n : Node) → (∀ b ∈ n.boundaries, p b.1 b.2) →
    n.Everywhere (fun t children => t.isBatch → p t children)
  | .table t children, h => by
    rw [boundaries] at h
    refine ⟨fun batch => ?_, everywhereIn_of_boundariesIn children (fun b hb => ?_)⟩
    · rw [if_pos batch] at h
      exact h (t, children) (List.mem_cons_self ..)
    · split at h
      · exact h b (List.mem_cons_of_mem _ hb)
      · exact h b hb
  | .column _, _ | .composite _, _ | .noop _ _, _ => trivial

theorem everywhereIn_of_boundariesIn : (nodes : List Node) →
    (∀ b ∈ boundariesIn nodes, p b.1 b.2) →
    EverywhereIn (fun t children => t.isBatch → p t children) nodes
  | [], _ => trivial
  | n :: r, h => by
    rw [boundariesIn, List.forall_mem_append] at h
    exact ⟨everywhere_of_boundaries n h.1, everywhereIn_of_boundariesIn r h.2⟩

end

mutual

theorem everywhere_boundary : (n : Node) → n.Everywhere p → ∀ b ∈ n.boundaries,
    (Node.table b.1 b.2).Everywhere p
  | .table t children, h, b, hb => by
    rw [boundaries] at hb
    split at hb
    · rcases List.mem_cons.mp hb with rfl | below
      · exact h
      · exact everywhere_boundaryIn children h.2 b below
    · exact everywhere_boundaryIn children h.2 b hb
  | .column _, _, b, hb | .composite _, _, b, hb | .noop _ _, _, b, hb => by
    exact (List.not_mem_nil hb).elim

theorem everywhere_boundaryIn : (nodes : List Node) → EverywhereIn p nodes →
    ∀ b ∈ boundariesIn nodes, (Node.table b.1 b.2).Everywhere p
  | [], _, b, hb => by cases hb
  | n :: r, h, b, hb => by
    rw [boundariesIn] at hb
    rcases List.mem_append.mp hb with here | later
    · exact everywhere_boundary n h.1 b here
    · exact everywhere_boundaryIn r h.2 b later

end

theorem everywhere_statementRoot {root : Node} (h : root.Everywhere p) {b : Table × List Node}
    (hb : b ∈ root.statementRoots) : (Node.table b.1 b.2).Everywhere p := by
  cases root with
  | table t children =>
    rcases List.mem_cons.mp hb with rfl | below
    · exact h
    · exact everywhere_boundaryIn children h.2 b below
  | column _ | composite _ | noop _ _ => cases hb

theorem boundariesIn_eq_flatMap (nodes : List Node) :
    boundariesIn nodes = nodes.flatMap boundaries := by
  induction nodes with
  | nil => rfl
  | cons n nodes inductionHypothesis =>
    rw [boundariesIn, inductionHypothesis, List.flatMap_cons]

mutual

theorem boundaries_eq_nil : (n : Node) → n.isBatch = false → n.hasBatchBelow = false →
    n.boundaries = []
  | .table t children, own, below => by
    have single : t.isBatch = false := own
    rw [boundaries, single]
    exact boundariesIn_eq_nil children below
  | .column _, _, _ | .composite _, _, _ | .noop _ _, _, _ => rfl

theorem boundariesIn_eq_nil : (nodes : List Node) → anyBatch nodes = false →
    boundariesIn nodes = []
  | [], _ => rfl
  | n :: r, unbatched => by
    rw [anyBatch, Bool.or_eq_false_iff, Bool.or_eq_false_iff] at unbatched
    obtain ⟨⟨own, below⟩, later⟩ := unbatched
    rw [boundariesIn, boundaries_eq_nil n own below, boundariesIn_eq_nil r later]
    exact List.nil_append []

end

end Plan.Node

namespace Shape

open Plan (Node)

theorem shaped_of_checkTable {n : Node} (h : checkTable n = .ok ()) :
    ∃ s, ofNode "" n = .ok s := by
  obtain ⟨s, hs, _⟩ := map_eq_ok.mp h
  exact ⟨s, hs⟩

mutual

theorem shaped_of_checkBatch : (n : Node) → checkBatch n = .ok () → ∀ b ∈ n.boundaries,
    ∃ s, ofNode "" (.table b.1 b.2) = .ok s
  | .table t children, h, b, hb => by
    obtain ⟨_, own, below⟩ := bind_eq_ok.mp h
    rw [Node.boundaries] at hb
    by_cases batch : t.isBatch
    · rw [if_pos batch] at own hb
      rcases List.mem_cons.mp hb with rfl | hb
      · exact shaped_of_checkTable own
      · exact shaped_of_checkBatches children below b hb
    · rw [if_neg batch] at hb
      exact shaped_of_checkBatches children below b hb
  | .column _, _, b, hb | .composite _, _, b, hb | .noop _ _, _, b, hb => by
    exact (List.not_mem_nil hb).elim

theorem shaped_of_checkBatches : (nodes : List Node) → checkBatches nodes = .ok () →
    ∀ b ∈ Node.boundariesIn nodes, ∃ s, ofNode "" (.table b.1 b.2) = .ok s
  | [], _, b, hb => by cases hb
  | n :: r, h, b, hb => by
    obtain ⟨_, hn, hr⟩ := bind_eq_ok.mp h
    rw [Node.boundariesIn] at hb
    rcases List.mem_append.mp hb with here | later
    · exact shaped_of_checkBatch n hn b here
    · exact shaped_of_checkBatches r hr b later

end

/-- A plan is refused unless each of its statements has a shape. -/
theorem shaped_of_checkPlan {root : Node} (h : checkPlan root = .ok ()) {b : Plan.Table × List Node}
    (hb : b ∈ root.statementRoots) : ∃ s, ofNode "" (.table b.1 b.2) = .ok s := by
  cases root with
  | table t children =>
    rw [checkPlan] at h
    split at h
    · cases h
    obtain ⟨_, own, below⟩ := bind_eq_ok.mp h
    rcases List.mem_cons.mp hb with rfl | hb
    · exact shaped_of_checkTable own
    · exact shaped_of_checkBatches children below b hb
  | column _ | composite _ | noop _ _ => exact (List.not_mem_nil hb).elim

end Shape

end TreeQuery
