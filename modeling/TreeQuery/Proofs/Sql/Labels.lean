import TreeQuery.Proofs.Hydration.Complete
import TreeQuery.Proofs.Shape
import TreeQuery.Proofs.Sql.Selected

/-!
The shape of a table and the table's statement agree on the names of columns: whatever label the
shape reads, at any depth of joined tables, is selected.
-/

namespace TreeQuery

open Plan (Node Table)
open Sql (childItems nodeItems outputPath SelectItem)

theorem Sql.outputPath_concat {path : List String} (h : path ≠ []) (a : String) :
    outputPath (path ++ [a]) = outputPath path ++ a ++ "__" := by
  obtain ⟨b, r, rfl⟩ := List.exists_cons_of_ne_nil h
  simp [outputPath, String.append_assoc]

namespace Shape

theorem labelsIn_append (fs gs : List (String × ShapeField)) :
    labelsIn (fs ++ gs) = labelsIn fs ++ labelsIn gs := by
  induction fs with
  | nil => rfl
  | cons f fs ih =>
    obtain ⟨n, f⟩ := f
    rw [List.cons_append, labelsIn, labelsIn, ih, List.append_assoc]

theorem labelsIn_addColumn (name label : String) (isIdentity : Bool)
    (fs : List (String × ShapeField)) :
    labelsIn (addColumn name label isIdentity fs) ⊆ labelsIn fs ++ [label] := by
  induction fs with
  | nil => exact List.Subset.refl _
  | cons f fs ih =>
    obtain ⟨n, f⟩ := f
    rw [addColumn]
    split
    · cases f <;> exact List.subset_append_left _ _
    · rw [labelsIn, labelsIn, List.append_assoc]
      exact List.append_subset.mpr ⟨List.subset_append_left _ _,
        List.subset_append_of_subset_right _ ih⟩

/-- The items of the nodes below a table. -/
def itemsBelow (fl : Sql.Flavor) (path : List String) : Node → List SelectItem
  | .table t children => childItems fl t path children
  | _ => []

/-- The labels of one node, followed by those of the nodes after it. -/
theorem labels_step {before with_ after : List (String × ShapeField)} {here rest : List SelectItem}
    (first : labelsIn with_ ⊆ labelsIn before ++ here.map SelectItem.output)
    (later : labelsIn after ⊆ labelsIn with_ ++ rest.map SelectItem.output) :
    labelsIn after ⊆ labelsIn before ++ (here ++ rest).map SelectItem.output := by
  rw [List.map_append, ← List.append_assoc]
  exact List.Subset.trans later (List.append_subset.mpr
    ⟨List.subset_append_of_subset_left _ first, List.subset_append_right _ _⟩)

variable (fl : Sql.Flavor)

mutual

theorem labels_ofNode : (n : Node) → {path : List String} → {s : Shape} → path ≠ [] →
    ofNode (outputPath path) n = .ok s → s.labels ⊆ (itemsBelow fl path n).map SelectItem.output
  | .table t children, path, s, hp, h => by
    obtain ⟨fields, hf, _, rfl⟩ := ofNode_table_ok.mp h
    exact labels_ofChildren t children hp hf
  | .column _, _, _, _, h | .composite _, _, _, _, h | .noop _ _, _, _, _, h => by cases h

theorem labels_ofChildren (parent : Table) : (children : List Node) → {path : List String} →
    {fields fields' : List (String × ShapeField)} → path ≠ [] →
    ofChildren (outputPath path) fields children = .ok fields' →
    labelsIn fields' ⊆ labelsIn fields ++ (childItems fl parent path children).map SelectItem.output
  | [], path, fields, fields', hp, h => by
    cases h
    exact List.subset_append_left _ _
  | .column c :: r, path, fields, fields', hp, h => by
    rw [ofChildren] at h
    have here := labelsIn_addColumn c.fieldName (outputPath path ++ c.label) c.isIdentity fields
    exact labels_step here (labels_ofChildren parent r hp h)
  | .composite c :: r, path, fields, fields', hp, h => by
    rw [ofChildren] at h
    have here := labelsIn_addColumn c.fieldName (outputPath path ++ c.label) true fields
    exact labels_step here (labels_ofChildren parent r hp h)
  | .noop _ _ :: r, path, fields, fields', hp, h => by
    rw [ofChildren] at h
    exact labels_ofChildren parent r hp h
  | .table t children :: r, path, fields, fields', hp, h => by
    rw [ofChildren] at h
    rw [childItems, nodeItems]
    cases hk : t.batchKeys? with
    | some keys =>
      rw [hk] at h
      have here := labelsIn_addColumn keys.parentKey.fieldName
        (outputPath path ++ keys.parentKey.label) false fields
      exact labels_step here (labels_ofChildren parent r hp h)
    | none =>
      rw [hk] at h
      obtain ⟨nested, hn, h⟩ := bind_eq_ok.mp h
      rw [← Sql.outputPath_concat hp] at hn
      have inner := labels_ofNode (.table t children) (by simp) hn
      have here : labelsIn (fields ++ [(t.fieldName, .nested nested t.many)]) ⊆
          labelsIn fields ++ (childItems fl t (path ++ [t.label]) children).map
            SelectItem.output := by
        rw [labelsIn_append, labelsIn, labelsIn, labelsOf, List.append_nil]
        exact List.append_subset.mpr ⟨List.subset_append_left _ _,
          List.subset_append_of_subset_right _ inner⟩
      exact labels_step here (labels_ofChildren parent r hp h)

end

variable {fl}

/-- A table's shape reads only columns that every statement of the table selects. -/
theorem labels_subset_outputs {t : Table} {children : List Node} {s : Shape}
    {scope : Option (List Value)} {st : Sql.Statement}
    (coherent : (Node.table t children).Everywhere Table.Coherent)
    (shaped : ofNode "" (.table t children) = .ok s)
    (compiled : Sql.statement fl (.table t children) scope = .ok st) :
    s.labels ⊆ st.outputs fl := by
  have root : outputPath [t.label] = "" := rfl
  rw [← root] at shaped
  have selected := labels_ofNode fl (.table t children) (by simp) shaped
  rw [itemsBelow, ← Sql.statement_items coherent compiled] at selected
  intro a ha
  exact Sql.Part.mem_outputs.mpr (selected ha)

end Shape

end TreeQuery
