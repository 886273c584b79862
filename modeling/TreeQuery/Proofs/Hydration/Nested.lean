import TreeQuery.Proofs.Hydration.Complete

/-!
The objects at all depths of a hydrated result, each with the rows that it stands for.
-/

namespace TreeQuery

open Shape (labelsIn identityOf)

/-- Every cell of the row is a key. -/
def Row.Keyed (r : Row) : Prop := ∀ a ∈ r.columns, (r.value a).key?.isSome

namespace Hydration

/-- One of the objects that some rows fold into, and its own rows. -/
def Folds (s : Shape) (rows own : List Row) (o : Fields Value) : Prop :=
  ∃ groups k pairs, groupRows s.identity rows = .ok groups ∧ (k, own) ∈ groups ∧
    objectFields s.fields own = .ok pairs ∧ o = Fields.ofPairs pairs

/-- An object that hydration makes at some depth, its shape and its own rows. -/
inductive Hydrated (shape : Shape) (rows : List Row) : Shape → List Row → Fields Value → Prop
  | own {own : List Row} {o : Fields Value} (folds : Folds shape rows own o) :
      Hydrated shape rows shape own o
  | nested {s inner : Shape} {above own : List Row} {o p : Fields Value} {name : String}
      {many : Bool} (outer : Hydrated shape rows s above o)
      (field : (name, .nested inner many) ∈ s.fields) (folds : Folds inner above own p) :
      Hydrated shape rows inner own p

/-- Hydration returns the objects that the rows fold into. -/
theorem mem_objects {s : Shape} {rows : List Row} {items : List Value}
    (hydrated : objects s rows = .ok items) {v : Value} :
    v ∈ items ↔ ∃ own o, v = .object o ∧ Folds s rows own o := by
  obtain ⟨fields⟩ := s
  obtain ⟨groups, grouped, hydrated⟩ := bind_eq_ok.mp hydrated
  rw [mem_of_mapM_ok hydrated]
  constructor
  · rintro ⟨⟨k, own⟩, group, ran⟩
    obtain ⟨pairs, read, made⟩ := bind_eq_ok.mp ran
    cases made
    exact ⟨own, _, rfl, groups, k, pairs, grouped, group, read, rfl⟩
  · rintro ⟨own, _, rfl, groups', k, pairs, grouped', group, read, rfl⟩
    cases grouped.symm.trans grouped'
    refine ⟨(k, own), group, bind_eq_ok.mpr ⟨pairs, read, rfl⟩⟩

theorem subset_labelsIn {fields : List (String × ShapeField)} {name : String} {inner : Shape}
    {many : Bool} (h : (name, .nested inner many) ∈ fields) : inner.labels ⊆ labelsIn fields := by
  induction fields with
  | nil => cases h
  | cons f fields ih =>
    rcases List.mem_cons.mp h with rfl | later
    · exact List.subset_append_left _ _
    · exact List.subset_append_of_subset_right _ (ih later)

theorem Folds.spec {s : Shape} {rows own : List Row} {o : Fields Value} (carry : Carry rows s.labels)
    (h : Folds s rows own o) :
    own ⊆ rows ∧ own ≠ [] ∧ o = Fields.ofPairs (fieldsOf s.fields own) := by
  obtain ⟨fields⟩ := s
  obtain ⟨groups, k, pairs, grouped, group, read, rfl⟩ := h
  have total := groupRows_eq (carry.mono (List.Subset.refl _) (Shape.identityOf_subset fields))
  cases grouped.symm.trans total
  obtain ⟨k, hk, same⟩ := List.mem_map.mp group
  cases same
  obtain ⟨r, hr, matched⟩ := List.mem_map.mp (List.mem_filter.mp (mem_distinct.mp hk)).1
  have part := List.filter_subset_self (p := fun r => keyOf (identityOf fields) r = k) rows
  have own : r ∈ rows.filter (fun r => keyOf (identityOf fields) r = k) := by
    simpa using ⟨hr, matched⟩
  have total := objectFields_eq fields (carry.mono part (List.Subset.refl _))
  cases read.symm.trans total
  exact ⟨part, List.ne_nil_of_mem own, rfl⟩

theorem Hydrated.spec {shape s : Shape} {rows own : List Row} {o : Fields Value}
    (carry : Carry rows shape.labels) (h : Hydrated shape rows s own o) :
    own ⊆ rows ∧ s.labels ⊆ shape.labels ∧ own ≠ [] ∧
      o = Fields.ofPairs (fieldsOf s.fields own) := by
  induction h with
  | own folds =>
    obtain ⟨part, full, fields⟩ := folds.spec carry
    exact ⟨part, List.Subset.refl _, full, fields⟩
  | @nested s inner above own o p name many outer field folds ih =>
    obtain ⟨part, labels, _, _⟩ := ih
    obtain ⟨fs⟩ := s
    have inside : inner.labels ⊆ shape.labels := List.Subset.trans (subset_labelsIn field) labels
    obtain ⟨part', full, fields⟩ := folds.spec (carry.mono part inside)
    exact ⟨List.Subset.trans part' part, inside, full, fields⟩

/-- A single row with an identity is an object. -/
theorem folds_single {s : Shape} {r : Row} (present : s.labels ⊆ r.columns)
    (keyed : r.Keyed) (identity : s.identity ≠ []) :
    Folds s [r] [r] (Fields.ofPairs (fieldsOf s.fields [r])) := by
  obtain ⟨fields⟩ := s
  have carry : Carry [r] (labelsIn fields) := by
    intro r' hr
    rw [List.mem_singleton.mp hr]
    exact present
  have ids := Shape.identityOf_subset fields
  obtain ⟨a, rest, first⟩ := List.exists_cons_of_ne_nil identity
  have first : identityOf fields = a :: rest := first
  have matched : isMatched (keyOf (identityOf fields) r) = true := by
    have member : a ∈ identityOf fields := by rw [first]; exact List.mem_cons_self ..
    have key := keyed a (present (ids member))
    rw [isMatched, keyOf, first]
    simp [key]
  refine ⟨groupsOf (identityOf fields) [r], keyOf (identityOf fields) r, fieldsOf fields [r],
    groupRows_eq (carry.mono (List.Subset.refl _) ids), ?_, objectFields_eq fields carry, rfl⟩
  simp [groupsOf, matchedKeys, matched, distinct_cons]

end Hydration

end TreeQuery
