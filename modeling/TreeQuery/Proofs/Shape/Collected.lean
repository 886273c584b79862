import TreeQuery.Proofs.Plan.Boundaries
import TreeQuery.Proofs.Plan.Identity

/-!
The shapes of a plan, collected before anything is executed. The walk goes from a statement to the
nearest batch boundaries below it, each of which starts the next statement, and so comes by all
tables that start one.
-/

namespace TreeQuery.Shape

open Plan (Node Table)

/-- Shapes, each with the table whose statement it is for. -/
abbrev Shapes := List ((Table × List Node) × Shape)

mutual

/-- The shape of a table's statement, and those below. -/
def collect : Node → Except ShapeError Shapes
  | .table t children => do
    let shape ← ofNode "" (.table t children)
    return ((t, children), shape) :: (← collectBelow children)
  | _ => return []

/-- What is joined has no statement of its own, but may have batch boundaries below it. -/
def collectBelow : List Node → Except ShapeError Shapes
  | [] => return []
  | .table t children :: r => do
    let here ← if t.isBatch then collect (.table t children) else collectBelow children
    return here ++ (← collectBelow r)
  | _ :: r => collectBelow r

end

def ofPlan : Node → Except ShapeError Shapes
  | .table t children =>
    if t.join.isSome then .error (.rootJoin t.location) else collect (.table t children)
  | _ => return []

/-- The shape of one statement. -/
def entry (b : Table × List Node) : Except ShapeError ((Table × List Node) × Shape) :=
  (ofNode "" (.table b.1 b.2)).map (fun shape => (b, shape))

mutual

/-- The collection comes by the tables that start a statement, in the order of the plan. -/
theorem collect_eq_mapM : (n : Node) → collect n = n.statementRoots.mapM entry
  | .table t children => by
    rw [collect, collectBelow_eq_mapM children, Node.statementRoots, List.mapM_cons, entry]
    cases ofNode "" (.table t children) <;> rfl
  | .column _ | .composite _ | .noop _ _ => rfl

theorem collectBelow_eq_mapM : (nodes : List Node) →
    collectBelow nodes = (Node.boundariesIn nodes).mapM entry
  | [] => rfl
  | .noop _ _ :: r | .column _ :: r | .composite _ :: r => collectBelow_eq_mapM r
  | .table t children :: r => by
    rw [collectBelow, Node.boundariesIn, Node.boundaries, List.mapM_append,
      collectBelow_eq_mapM r]
    split
    · rw [collect_eq_mapM (.table t children), Node.statementRoots]
    · rw [collectBelow_eq_mapM children]

end

section Check

theorem checkTable_eq (t : Table) (children : List Node) :
    checkTable (.table t children) = (entry (t, children)).map (fun _ => ()) := by
  rw [checkTable, entry]
  cases ofNode "" (.table t children) <;> rfl

theorem map_mapM_cons (b : Table × List Node) (l : List (Table × List Node)) :
    ((b :: l).mapM entry).map (fun _ => ()) =
      (entry b).map (fun _ => ()) >>= (fun _ => (l.mapM entry).map (fun _ => ())) := by
  rw [List.mapM_cons]
  cases entry b <;> cases l.mapM entry <;> rfl

theorem map_mapM_append (l l' : List (Table × List Node)) :
    ((l ++ l').mapM entry).map (fun _ => ()) =
      (l.mapM entry).map (fun _ => ()) >>= (fun _ => (l'.mapM entry).map (fun _ => ())) := by
  rw [List.mapM_append]
  cases l.mapM entry <;> cases l'.mapM entry <;> rfl

mutual

theorem checkBatch_eq : (n : Node) →
    checkBatch n = (n.boundaries.mapM entry).map (fun _ => ())
  | .table t children => by
    rw [checkBatch, checkTable_eq, checkBatches_eq children, Node.boundaries]
    split
    · rw [map_mapM_cons]
    · rfl
  | .column _ | .composite _ | .noop _ _ => rfl

theorem checkBatches_eq : (nodes : List Node) →
    checkBatches nodes = ((Node.boundariesIn nodes).mapM entry).map (fun _ => ())
  | [] => rfl
  | n :: r => by
    rw [checkBatches, checkBatch_eq n, checkBatches_eq r, Node.boundariesIn, map_mapM_append]

end

/-- A plan passes its check if its shapes can be collected, and fails with the same error if not. -/
theorem checkPlan_eq (root : Node) : checkPlan root = (ofPlan root).map (fun _ => ()) := by
  cases root with
  | table t children =>
    rw [checkPlan, ofPlan]
    split
    · rfl
    · rw [collect_eq_mapM, Node.statementRoots, map_mapM_cons, checkTable_eq, checkBatches_eq]
  | column _ | composite _ | noop _ _ => rfl

end Check

/-- There is a shape for each table that starts a statement, and for no other. -/
structure Covers (shapes : Shapes) (root : Node) : Prop where
  roots : shapes.map Prod.fst = root.statementRoots
  shaped : ∀ p ∈ shapes, ofNode "" (.table p.1.1 p.1.2) = .ok p.2

theorem entry_ok {b : Table × List Node} {p : (Table × List Node) × Shape} :
    entry b = .ok p ↔ ofNode "" (.table b.1 b.2) = .ok p.2 ∧ b = p.1 := by
  rw [entry, map_eq_ok]
  obtain ⟨c, shape⟩ := p
  simp

theorem covers_of_collect {root : Node} {shapes : Shapes} (h : collect root = .ok shapes) :
    Covers shapes root := by
  rw [collect_eq_mapM] at h
  constructor
  · generalize root.statementRoots = roots at h
    induction roots generalizing shapes with
    | nil =>
      cases h
      rfl
    | cons b roots inductionHypothesis =>
      obtain ⟨p, rest, here, later, rfl⟩ := mapM_eq_ok_cons.mp h
      rw [List.map_cons, ← (entry_ok.mp here).2, inductionHypothesis later]
  · intro p member
    obtain ⟨b, _, made⟩ := (mem_of_mapM_ok h).mp member
    obtain ⟨shaped, rfl⟩ := entry_ok.mp made
    exact shaped

/-- If every table of a plan identifies its objects, only a join at its root keeps the plan from
being shaped. -/
theorem ofPlan_of_headed {root : Node} (headed : root.Everywhere Table.Headed)
    (unjoined : ∀ t, root.table? = some t → t.join = none) :
    ∃ shapes, ofPlan root = .ok shapes ∧ Covers shapes root := by
  have each (b : Table × List Node) (starts : b ∈ root.statementRoots) :
      ∃ p, entry b = .ok p := by
    have below := Node.everywhere_statementRoot headed starts
    obtain ⟨shape, shaped⟩ := Plan.shaped_of_headed (.table b.1 b.2) below rfl ""
    exact ⟨(b, shape), entry_ok.mpr ⟨shaped, rfl⟩⟩
  obtain ⟨shapes, collected⟩ := mapM_ok_of_ok each
  rw [← collect_eq_mapM] at collected
  refine ⟨shapes, ?_, covers_of_collect collected⟩
  cases root with
  | table t children => rw [ofPlan, unjoined t rfl, if_neg (by simp), collected]
  | column _ | composite _ | noop _ _ => exact collected

end TreeQuery.Shape
