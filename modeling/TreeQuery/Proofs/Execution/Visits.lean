import TreeQuery.Proofs.Batch.Splicing
import TreeQuery.Proofs.Connection.Trimmed
import TreeQuery.Proofs.Plan.Boundaries

/-!
How a run goes through a plan. Below each table it comes to the batch boundaries and to the tables
that are joined, with the objects that it holds there, and to each boundary once.
-/

namespace TreeQuery

namespace Execution

open Plan (Node Table)
open Value (itemObjects)

/-- A batch boundary that a run has come to. -/
structure Visit where
  table : Table
  children : List Node
  /-- The objects of the table above that are live when the run comes there. -/
  parents : List (Fields Value)
  /-- What reached the database for the boundary itself, not for the boundaries below. -/
  issued : List Sql.Query

namespace Visit

def boundary (v : Visit) : Table × List Node := (v.table, v.children)

/-- The correlation keys of the live parents, each once, in order of first appearance. -/
def keys (v : Visit) : List Key := distinct (v.parents.flatMap (Batch.parentKeys v.table))

/-- A boundary issues one statement at most, and none unless some live parent has a key. The
statement asks for just the keys of the live parents. -/
structure Disciplined (fl : Sql.Flavor) (v : Visit) : Prop where
  once : v.issued.length ≤ 1
  needed : v.issued ≠ [] ↔ ∃ o ∈ v.parents, Batch.parentKeys v.table o ≠ []
  limited : ∀ q ∈ v.issued,
    Sql.compile fl (.table v.table v.children) (some (v.keys.map Key.toValue)) = .ok q

end Visit

/-- The values that objects have in a field. -/
def heldIn (name : String) (objects : List (Fields Value)) : List Value :=
  objects.filterMap (fun o => Fields.get? o name)

/-- What a run goes through among the children of a table. -/
inductive Part where
  | batches
  | joined
  | both

/-- Only tables that are batches or have some below matter to a run. -/
def Part.concerns : Part → Node → Bool
  | .batches, n => n.isBatch
  | .joined, n => n.isJoinedToBatch
  | .both, n => n.isBatch || n.isJoinedToBatch

/-- The batch boundaries among some nodes and below them that a part of the nodes leads to. -/
def Part.boundaries : Part → List Node → List (Table × List Node)
  | .batches, nodes => (nodes.filter Node.isBatch).flatMap Node.boundaries
  | .joined, nodes => (nodes.filter (fun n => !n.isBatch)).flatMap Node.boundaries
  | .both, nodes => Node.boundariesIn nodes

/-- What a run skips leads to no boundary. -/
theorem Part.boundaries_skip {part : Part} {n : Node} (other : part.concerns n = false)
    (nodes : List Node) : part.boundaries (n :: nodes) = part.boundaries nodes := by
  cases part with
  | batches =>
    have single : n.isBatch = false := other
    rw [boundaries, List.filter_cons_of_neg (by simp [single]), boundaries]
  | joined =>
    rw [boundaries, boundaries, List.filter_cons]
    cases batch : n.isBatch with
    | true => simp
    | false =>
      rw [concerns, Node.isJoinedToBatch, batch] at other
      simp [Node.boundaries_eq_nil n batch other]
  | both =>
    rw [concerns, Node.isJoinedToBatch, Bool.or_eq_false_iff] at other
    obtain ⟨single, below⟩ := other
    rw [single] at below
    rw [boundaries, Node.boundariesIn, Node.boundaries_eq_nil n single below]
    exact List.nil_append _

theorem isBatch_of_matched {t : Table} {keys : Plan.Batch} (matched : t.batchKeys? = some keys) :
    t.isBatch = true := by
  rw [t.isBatch_eq, matched, Option.isSome_some]

theorem Part.boundaries_batch {t : Table} (batch : t.isBatch = true) (children nodes : List Node) :
    Part.batches.boundaries (.table t children :: nodes) =
      (t, children) :: (Node.boundariesIn children ++ Part.batches.boundaries nodes) := by
  have kept : (Node.table t children).isBatch = true := batch
  rw [boundaries, List.filter_cons, if_pos kept, List.flatMap_cons, Node.boundaries, if_pos batch,
    List.cons_append, boundaries]

theorem Part.boundaries_joined {t : Table} (single : t.isBatch = false)
    (children nodes : List Node) :
    Part.joined.boundaries (.table t children :: nodes) =
      Node.boundariesIn children ++ Part.joined.boundaries nodes := by
  have kept : (!(Node.table t children).isBatch) = true := by rw [Node.isBatch, single]; rfl
  rw [boundaries, List.filter_cons, if_pos kept, List.flatMap_cons, Node.boundaries,
    if_neg (by simp [single]), boundaries]

theorem Part.boundaries_both (nodes : List Node) :
    (Part.batches.boundaries nodes ++ Part.joined.boundaries nodes).Perm
      (Part.both.boundaries nodes) := by
  rw [boundaries, boundaries, boundaries, Node.boundariesIn_eq_flatMap, ← List.flatMap_append]
  exact (List.filter_append_perm Node.isBatch nodes).flatMap_right _

variable {σ : Type} {fl : Sql.Flavor} {d : Driver σ}

/-- A run goes through children of a table for some live objects of that table, from one state to
another, and comes to some batch boundaries on the way. The live objects of a batch are in the
groups of what its statement returned, those of a joined table in the objects of its parent. -/
inductive Visits (fl : Sql.Flavor) (d : Driver σ) :
    Part → List Node → List (Fields Value) → Session σ → List Visit → Session σ → Prop
  | nil {part : Part} {objects : List (Fields Value)} {s : Session σ} :
      Visits fl d part [] objects s [] s
  | skip {part : Part} {n : Node} {nodes : List Node} {objects : List (Fields Value)}
      {s s' : Session σ} {log : List Visit} (other : part.concerns n = false)
      (later : Visits fl d part nodes objects s log s') :
      Visits fl d part (n :: nodes) objects s log s'
  | batch {t : Table} {keys : Plan.Batch} {children nodes : List Node}
      {objects : List (Fields Value)} {items : List Value} {groups : Groups}
      {s s₁ s₂ s' : Session σ} {issued : List Sql.Query} {inner rest : List Visit}
      (matched : t.batchKeys? = some keys)
      (returned : Returned fl d t children (Batch.scope t objects) s items s₁)
      (reached : s₁.issued = s.issued ++ issued)
      (grouped : groupValues t (Groups.ofItems keys.thisKey.fieldName items) = .ok groups)
      (cut : ∀ w ∈ groups.map Prod.snd, t.Cut w)
      (inside : Visits fl d .both children (itemObjects (groups.map Prod.snd)) s₁ inner s₂)
      (later : Visits fl d .batches nodes objects s₂ rest s') :
      Visits fl d .batches (.table t children :: nodes) objects s
        (⟨t, children, objects, issued⟩ :: (inner ++ rest)) s'
  | joined {t : Table} {children nodes : List Node} {objects : List (Fields Value)}
      {s s₁ s' : Session σ} {inner rest : List Visit} (single : t.isBatch = false)
      (cut : ∀ w ∈ heldIn t.fieldName objects, t.Cut w)
      (inside : Visits fl d .both children (itemObjects (heldIn t.fieldName objects)) s inner s₁)
      (later : Visits fl d .joined nodes objects s₁ rest s') :
      Visits fl d .joined (.table t children :: nodes) objects s (inner ++ rest) s'
  | both {nodes : List Node} {objects : List (Fields Value)} {s s₁ s' : Session σ}
      {first rest : List Visit} (batches : Visits fl d .batches nodes objects s first s₁)
      (joined : Visits fl d .joined nodes objects s₁ rest s') :
      Visits fl d .both nodes objects s (first ++ rest) s'

theorem fetch_issued {n : Node} {scope : Option (List Value)} {items : List Value}
    {s s' : Session σ} (fetched : fetch fl d n scope s = (.ok items, s')) :
    ∃ q, Sql.compile fl n scope = .ok q ∧ s'.issued = s.issued ++ [q] := by
  obtain ⟨q, s₁, compiled, fetched⟩ := Run.bind_ok.mp fetched
  obtain ⟨shape, s₂, shaped, fetched⟩ := Run.bind_ok.mp fetched
  obtain ⟨rows, s₃, queried, hydrated⟩ := Run.bind_ok.mp fetched
  have compiled := Run.ofExcept_ok.mp compiled
  have shaped := Run.ofExcept_ok.mp shaped
  have hydrated := Run.ofExcept_ok.mp hydrated
  have asked := Session.query_issued queried
  rw [← compiled.2.trans shaped.2, hydrated.2] at asked
  exact ⟨q, compiled.1, asked⟩

theorem scope_ne_nil {t : Table} {objects : List (Fields Value)} :
    Batch.scope t objects ≠ [] ↔ ∃ o ∈ objects, Batch.parentKeys t o ≠ [] := by
  constructor
  · intro present
    obtain ⟨k, member⟩ := List.exists_mem_of_ne_nil _ present
    obtain ⟨o, parent, own⟩ := List.mem_flatMap.mp (mem_distinct.mp member)
    exact ⟨o, parent, List.ne_nil_of_mem own⟩
  · rintro ⟨o, parent, present⟩
    obtain ⟨k, own⟩ := List.exists_mem_of_ne_nil _ present
    exact List.ne_nil_of_mem (mem_distinct.mpr (List.mem_flatMap.mpr ⟨o, parent, own⟩))

/-- What a boundary issues is decided by the keys of the live parents. -/
theorem Returned.disciplined {t : Table} {children : List Node} {objects : List (Fields Value)}
    {items : List Value} {s s' : Session σ} {issued : List Sql.Query}
    (returned : Returned fl d t children (Batch.scope t objects) s items s')
    (reached : s'.issued = s.issued ++ issued) :
    Visit.Disciplined fl ⟨t, children, objects, issued⟩ := by
  rw [Returned] at returned
  by_cases empty : Batch.scope t objects = []
  · rw [if_pos (by rw [empty, List.isEmpty_nil])] at returned
    obtain ⟨_, rfl⟩ := returned
    have nothing : issued = [] := by simpa using reached
    subst nothing
    constructor
    · exact Nat.zero_le 1
    · rw [← scope_ne_nil]
      simp [empty]
    · simp
  · rw [if_neg (by simpa using empty)] at returned
    obtain ⟨hydrated, fetched, _⟩ := returned
    obtain ⟨q, compiled, asked⟩ := fetch_issued fetched
    have single : issued = [q] := List.append_cancel_left (reached.symm.trans asked)
    subst single
    constructor
    · exact Nat.le_refl 1
    · rw [← scope_ne_nil]
      simp [empty]
    · intro r member
      rw [List.mem_singleton.mp member]
      exact compiled

namespace Visits

variable {part : Part} {nodes : List Node} {objects : List (Fields Value)} {s s' : Session σ}
variable {log : List Visit}

theorem disciplined (h : Visits fl d part nodes objects s log s') :
    ∀ v ∈ log, v.Disciplined fl := by
  induction h with
  | nil => simp
  | skip _ _ inductionHypothesis => exact inductionHypothesis
  | batch _ returned reached _ _ _ _ inside later =>
    have rest := List.forall_mem_append.mpr ⟨inside, later⟩
    exact List.forall_mem_cons.mpr ⟨returned.disciplined reached, rest⟩
  | joined _ _ _ _ inside later => exact List.forall_mem_append.mpr ⟨inside, later⟩
  | both _ _ batches joined => exact List.forall_mem_append.mpr ⟨batches, joined⟩

/-- Nothing else reaches the database. -/
theorem issued (h : Visits fl d part nodes objects s log s') :
    s'.issued = s.issued ++ log.flatMap Visit.issued := by
  induction h with
  | nil => simp
  | skip _ _ inductionHypothesis => exact inductionHypothesis
  | batch _ _ reached _ _ _ _ inside later => simp [later, inside, reached]
  | joined _ _ _ _ inside later => simp [later, inside]
  | both _ _ batches joined => simp [joined, batches]

/-- A run comes to each boundary once. -/
theorem boundaries (h : Visits fl d part nodes objects s log s') :
    (log.map Visit.boundary).Perm (part.boundaries nodes) := by
  induction h with
  | @nil part _ _ => cases part <;> exact List.Perm.refl _
  | skip other _ inductionHypothesis =>
    rw [Part.boundaries_skip other]
    exact inductionHypothesis
  | batch matched _ _ _ _ _ _ inside later =>
    rw [Part.boundaries_batch (isBatch_of_matched matched), List.map_cons, List.map_append]
    exact (inside.append later).cons _
  | joined single _ _ _ inside later =>
    rw [Part.boundaries_joined single, List.map_append]
    exact inside.append later
  | both _ _ batches joined =>
    rw [List.map_append]
    exact (batches.append joined).trans (Part.boundaries_both _)

end Visits

end Execution

end TreeQuery
