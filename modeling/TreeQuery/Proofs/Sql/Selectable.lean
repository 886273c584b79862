import TreeQuery.Proofs.Sql.PageOrder

/-!
Pages that cannot be selected. A statement is compiled only if every page in it can be: its
arguments and its cursor are accepted, and the flavor has what such a page takes.
-/

namespace TreeQuery

open Plan (Node Paging Table)

namespace Plan.Table

/-- The page of a table with a relation is taken for each row above it. -/
def isRelated (t : Table) : Bool := t.join.isSome || t.junction.isSome || t.batch.isSome

/-- The page that a table asks for is one that the flavor can select. -/
def Selectable (fl : Sql.Flavor) (t : Table) : Prop :=
  ∃ p, t.paging = .ok p ∧ Sql.checkSupport fl t.location t.isRelated p.isOffset = .ok ()

/-- A table is paginated, but its arguments or its cursor are rejected, or the flavor does not
support such a page. -/
def Refused (fl : Sql.Flavor) (t : Table) : Prop := t.paginate = true ∧ ¬t.Selectable fl

end Plan.Table

namespace Sql

variable {fl : Flavor} {t : Table}

/-- What a computation that got past a check knows does not depend on the rest of it. -/
theorem Yields.checked {α β : Type} {P : α → Prop} {q : Prop} {m : Binder α} {f : α → Binder β}
    (first : Yields P m) (known : ∀ x, P x → q) : Yields (fun _ => q) (m >>= f) :=
  first.bind (fun x here => ⟨fun _ => known x here⟩)

theorem supportedPaging_supported (lateral : Bool) :
    Yields (fun p => t.paging = .ok p ∧ checkSupport fl t.location lateral p.isOffset = .ok ())
      (supportedPaging fl t lateral) := by
  have asked : Yields (fun p => t.paging = .ok p) (getPaging t) :=
    .lift (fun p done => mapError_eq_ok.mp done)
  apply asked.bind
  intro p paged
  have supported : Yields (fun _ => checkSupport fl t.location lateral p.isOffset = .ok ())
      (liftM (checkSupport fl t.location lateral p.isOffset) : Binder Unit) := .lift (fun _ => id)
  apply supported.bind
  intro _ supported
  exact .pure ⟨paged, supported⟩

theorem supportedPaging_selectable :
    Yields (fun _ => t.Selectable fl) (supportedPaging fl t t.isRelated) :=
  ⟨fun ran => ⟨_, (supportedPaging_supported _).returned ran⟩⟩

theorem rootPage_selectable (unrelated : t.isRelated = false) :
    Yields (fun _ => t.Selectable fl) (rootPage fl t) := by
  rw [rootPage, ← unrelated]
  exact supportedPaging_selectable.checked (fun _ => id)

section Related

variable (related : t.isRelated = true)
include related

theorem joinedPage_selectable (parent : Table) (join : List Clause) :
    Yields (fun _ => t.Selectable fl) (joinedPage fl parent t join) := by
  rw [joinedPage, ← related]
  exact supportedPaging_selectable.checked (fun _ => id)

theorem batchPage_selectable (keys : Plan.Batch) (values : List Value) :
    Yields (fun _ => t.Selectable fl) (batchPage fl t keys values) := by
  rw [batchPage, ← related]
  exact supportedPaging_selectable.checked (fun _ => id)

theorem junctionPage_selectable (parent : Table) (j : Plan.Junction)
    (fromParent toChild : List Clause) :
    Yields (fun _ => t.Selectable fl) (junctionPage fl parent t j fromParent toChild) := by
  rw [junctionPage, ← related]
  exact supportedPaging_selectable.checked (fun _ => id)

theorem junctionBatchPage_selectable (j : Plan.Junction) (keys : Plan.Batch) (values : List Value)
    (join : List Clause) :
    Yields (fun _ => t.Selectable fl) (junctionBatchPage fl t j keys values join) := by
  rw [junctionBatchPage, ← related]
  exact supportedPaging_selectable.checked (fun _ => id)

end Related

section Parts

variable {parent : Option Table} {path : List String} {scope : Option (List Value)}

/-- If a statement goes on into a paginated table, the page has been selected. -/
def Taken (fl : Flavor) (parent : Option Table) (t : Table) : Prop :=
  continues parent t = true → t.paginate = true → t.Selectable fl

theorem joinPart_taken {join : List Clause} (directly : t.join = some join) :
    Yields (fun _ => Taken fl parent t) (joinPart fl parent t join) := by
  have related : t.isRelated = true := by simp [Table.isRelated, directly]
  cases parent with
  | none => exact .throw _
  | some p =>
    apply Yields.ite
    · intro _
      exact (joinedPage_selectable related p join).checked (fun _ taken _ _ => taken)
    · intro unpaged
      exact ⟨fun _ _ paginate => (unpaged paginate).elim⟩

theorem junctionPart_taken {j : Plan.Junction} (through : t.junction = some j) :
    Yields (fun _ => Taken fl parent t) (junctionPart fl parent t j) := by
  have related : t.isRelated = true := by simp [Table.isRelated, through]
  cases parent with
  | none => exact .throw _
  | some p =>
    simp only [junctionPart]
    cases j.fromParent with
    | none => exact .throw _
    | some fromParent =>
      cases j.toChild with
      | none => exact .throw _
      | some toChild =>
        apply Yields.ite
        · intro _
          exact (junctionPage_selectable related p j fromParent toChild).checked
            (fun _ taken _ _ => taken)
        · intro unpaged
          exact ⟨fun _ _ paginate => (unpaged paginate).elim⟩

theorem batchPart_taken {b : Plan.Batch} (many : t.batch = some b) :
    Yields (fun _ => Taken fl parent t) (batchPart fl parent path scope t b) := by
  have related : t.isRelated = true := by simp [Table.isRelated, many]
  cases parent with
  | some p =>
    have apart : continues (some p) t = false := by simp [continues, Table.isBatch, many]
    exact ⟨fun _ continued => Bool.noConfusion (apart.symm.trans continued)⟩
  | none =>
    apply Yields.after
    intro values
    apply Yields.ite
    · intro _
      exact (batchPage_selectable related b values).checked (fun _ taken _ _ => taken)
    · intro unpaged
      exact ⟨fun _ _ paginate => (unpaged paginate).elim⟩

theorem junctionBatchPart_taken {j : Plan.Junction} {b : Plan.JunctionBatch}
    (through : t.junction = some j) (many : j.batch = some b) :
    Yields (fun _ => Taken fl parent t) (junctionBatchPart fl parent path scope t j b) := by
  have related : t.isRelated = true := by simp [Table.isRelated, through]
  cases parent with
  | some p =>
    have apart : continues (some p) t = false := by
      simp [continues, Table.isBatch, Table.junctionBatch?, through, many]
    exact ⟨fun _ continued => Bool.noConfusion (apart.symm.trans continued)⟩
  | none =>
    simp only [junctionBatchPart]
    cases b.join with
    | none => exact .throw _
    | some join =>
      apply Yields.after
      intro values
      apply Yields.ite
      · intro _
        exact (junctionBatchPage_selectable related j b.keys values join).checked
          (fun _ taken _ _ => taken)
      · intro unpaged
        exact ⟨fun _ _ paginate => (unpaged paginate).elim⟩

theorem rootPart_taken (unrelated : t.isRelated = false) :
    Yields (fun _ => Taken fl parent t) (rootPart fl parent t) := by
  cases parent with
  | some p => exact .throw _
  | none =>
    simp only [rootPart, Option.isSome_none, Bool.false_eq_true, if_false]
    apply Yields.ite
    · intro _
      exact (rootPage_selectable unrelated).checked (fun _ taken _ _ => taken)
    · intro unpaged
      exact ⟨fun _ _ paginate => (unpaged paginate).elim⟩

theorem relationPart_taken :
    Yields (fun _ => Taken fl parent t) (relationPart fl parent path scope t) := by
  unfold relationPart
  cases directly : t.join with
  | some join => exact joinPart_taken directly
  | none =>
    cases through : t.junction with
    | some j =>
      cases many : j.batch with
      | some b =>
        simp only [many]
        exact junctionBatchPart_taken through many
      | none =>
        simp only [many]
        exact junctionPart_taken through
    | none =>
      cases many : t.batch with
      | some b => exact batchPart_taken many
      | none => exact rootPart_taken (by simp [Table.isRelated, directly, through, many])

theorem tablePart_taken :
    Yields (fun _ => Taken fl parent t) (tablePart fl parent path scope t) := by
  apply Yields.after
  intro _
  apply Yields.after
  intro _
  exact relationPart_taken.checked (fun _ => id)

end Parts

mutual

theorem nodePart_selectable : (n : Node) → (parent : Table) → (path : List String) →
    (scope : Option (List Value)) →
    Yields (fun _ => ∀ u ∈ if n.isBatch then [] else n.statementTables,
      u.paginate = true → u.Selectable fl) (nodePart fl (some parent) path scope n)
  | .table t children, parent, path, scope => by
    have continued : continues (some parent) t = !t.isBatch := by rw [continues]; rfl
    change Yields (fun _ => ∀ u ∈ if t.isBatch then [] else _, _) _
    rw [nodePart]
    apply tablePart_taken.bind
    intro here taken
    cases batch : t.isBatch with
    | true => exact ⟨by simp⟩
    | false =>
      rw [continued, batch, Bool.not_false, if_pos rfl, if_neg Bool.false_ne_true]
      apply (childrenPart_selectable children t (path ++ [t.label])).checked
      intro rest below
      exact List.forall_mem_cons.mpr ⟨taken (by rw [continued, batch]; rfl), below⟩
  | .column _, _, _, _ | .composite _, _, _, _ | .noop _ _, _, _, _ =>
    ⟨fun _ _ member => (List.not_mem_nil member).elim⟩

theorem childrenPart_selectable : (children : List Node) → (parent : Table) →
    (path : List String) → Yields (fun _ => ∀ u ∈ Node.joinedTables children,
      u.paginate = true → u.Selectable fl) (childrenPart fl parent path children)
  | [], _, _ => ⟨fun _ _ member => (List.not_mem_nil member).elim⟩
  | c :: r, parent, path => by
    rw [childrenPart]
    apply (nodePart_selectable c parent path none).bind
    intro here first
    apply (childrenPart_selectable r parent path).checked
    intro rest later u member
    rw [Node.joinedTables] at member
    exact (List.mem_append.mp member).elim (first u) (later u)

end

/-- A statement with a refused page is not compiled, whatever the scope. -/
theorem compile_refuses {t : Table} {children : List Node} {scope : Option (List Value)} {q : Query}
    (compiled : compile fl (.table t children) scope = .ok q) :
    ∀ u ∈ (Node.table t children).statementTables, ¬u.Refused fl := by
  obtain ⟨st, stated, rfl⟩ := map_eq_ok.mp compiled
  obtain ⟨here, rest, _, ranHere, ranRest, _⟩ := statement_table stated
  have own := tablePart_taken.returned ranHere
  have below := (childrenPart_selectable children t _).returned ranRest
  rintro u member ⟨paginate, refused⟩
  rcases List.mem_cons.mp member with rfl | joined
  · exact refused (own rfl paginate)
  · exact refused (below u joined paginate)

end Sql

end TreeQuery
