import TreeQuery.Proofs.Plan.Sources

/-!
A table that is read in pages by offset has a column for the number of all its rows, which the
statement of the page adds to each of them.
-/

namespace TreeQuery.Plan

variable {Ctx : Type} {s : Schema Ctx} {cx : Ctx} {t : Table} {nodes : List Node}

/-- The column of a page that counts all rows. -/
def Node.IsTotal (t : Table) (n : Node) : Prop :=
  ∃ label, n = .column ⟨.expression
    (Identifier.quote t.pageLabel ++ "." ++ Identifier.quote totalColumn), totalColumn, label, false,
    none, t.location⟩

theorem pagingNodes_total {ns ns' : Namespace} (offset : t.isOffsetPaginated = true)
    (h : (pagingNodes t).run ns = .ok (nodes, ns')) : ∃ n, nodes = [n] ∧ n.IsTotal t := by
  obtain ⟨⟨paged, unkeyed⟩, ordered⟩ : (t.paginate = true ∧ t.keyset?.isNone = true) ∧
      t.offsetOrder?.isSome = true := by simpa [Table.isOffsetPaginated] using offset
  unfold pagingNodes at h
  split at h
  · rename_i unpaged
    simp [paged] at unpaged
  split at h
  · rename_i keyed
    rw [keyed] at unkeyed
    cases unkeyed
  · obtain ⟨label, _, _, h⟩ := run_bind_ok.mp h
    obtain ⟨rfl, _⟩ := run_pure_ok.mp h
    exact ⟨_, rfl, label, rfl⟩
  · rename_i unordered
    rw [unordered] at ordered
    cases ordered

theorem Table.Declared.counted (h : t.Declared s cx nodes) (offset : t.isOffsetPaginated = true) :
    ∃ n ∈ nodes, n.IsTotal t := by
  cases h with
  | intro _ _ _ planned =>
    obtain ⟨identity, _, _, head⟩ := run_bind_ok.mp planned.head
    obtain ⟨always, _, _, head⟩ := run_bind_ok.mp head
    obtain ⟨paging, _, counts, head⟩ := run_bind_ok.mp head
    obtain ⟨rfl, _⟩ := run_pure_ok.mp head
    obtain ⟨n, rfl, total⟩ := pagingNodes_total offset counts
    exact ⟨n, by simp, total⟩

end TreeQuery.Plan
