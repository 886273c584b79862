import TreeQuery.Proofs.Hydration.Paired
import TreeQuery.Proofs.Plan.Twice
import TreeQuery.Proofs.Sql.Labels

/-!
What two statements select whose plans differ in labels. Their items have the same sources but for
the labels of tables, and the shapes of their objects read items of one source in the same places.
-/

namespace TreeQuery

open Plan (Column Expression Node Relabels Table)
open Shape (SameFields)

namespace Sql

variable {Ctx : Type}

/-- Sources that differ only in the label of one table. -/
inductive SameSource (s : Schema Ctx) (cx : Ctx) (fl : Flavor) (labels : List (String × String)) :
    Fragment → Fragment → Prop
  | column {a a' : String} (same : (a, a') ∈ labels) (column : String) :
    SameSource s cx fl labels [.column a column] [.column a' column]
  | composite {t t' : Table} (same : (t.label, t'.label) ∈ labels) (columns : List String) :
    SameSource s cx fl labels (compositeSource fl t columns) (compositeSource fl t' columns)
  | expression {a a' : String} (same : (a, a') ∈ labels) {f : String → String}
    (computes : Expression s cx f) :
    SameSource s cx fl labels [.sql (f (Identifier.quote a))] [.sql (f (Identifier.quote a'))]

/-- Names under which two statements select items of one source. -/
def ReadAlike (s : Schema Ctx) (cx : Ctx) (fl : Flavor) (labels : List (String × String))
    (items items' : List SelectItem) (a a' : String) : Prop :=
  ∃ i ∈ items, ∃ i' ∈ items', SameSource s cx fl labels i.source i'.source ∧ i.output = a ∧
    i'.output = a'

variable {s : Schema Ctx} {cx : Ctx} {fl : Flavor} {labels : List (String × String)}
variable {t t' : Table}

/-- What has the source of a column is that column of the same table. -/
theorem SameSource.column_eq {a column : String} {f : Fragment}
    (h : SameSource s cx fl labels [.column a column] f) :
    ∃ a', (a, a') ∈ labels ∧ f = [.column a' column] := by
  generalize source : [Token.column a column] = g at h
  cases h with
  | column same column =>
    cases source
    exact ⟨_, same, rfl⟩
  | composite same columns => cases fl <;> cases source
  | expression same computes => cases source

theorem columnSource_same {c c' : Column} (own : ∀ a a', t.LabelPair t' a a' → (a, a') ∈ labels)
    (h : c.Relabelled (Expression s cx) t t' c') :
    SameSource s cx fl labels (columnSource t c) (columnSource t' c') := by
  cases h with
  | name column _ _ _ _ tables _ => exact .column (own _ _ tables) column
  | expression computes same _ _ _ _ _ => exact .expression (own _ _ same) computes

end Sql

namespace Shape

open Sql (ReadAlike SelectItem childItems nodeItems outputPath)

variable {Ctx : Type} {s : Schema Ctx} {cx : Ctx} {fl : Sql.Flavor}
variable {labels : List (String × String)} {items items' : List SelectItem}

/-- Fields that are read alike make two shapes, or none, as none of them is identity. -/
theorem ofNode_outcomes {L : String → String → Prop} {t t' : Table} {cs cs' : List Node}
    (same : t.Relabelled t') {path path' : String}
    (fields : Outcomes (SameFields L) (ofChildren path [] cs) (ofChildren path' [] cs')) :
    Outcomes (fun shape shape' => SameFields L shape.fields shape'.fields)
      (ofNode path (.table t cs)) (ofNode path' (.table t' cs')) := by
  rw [ofNode, ofNode]
  apply fields.bind
  intro fs fs' h
  have empty : (identityOf fs').isEmpty = (identityOf fs).isEmpty := by
    have identities := h.identityOf
    generalize identityOf fs = ids at identities ⊢
    generalize identityOf fs' = ids' at identities ⊢
    cases identities <;> rfl
  rw [same.location, empty]
  split
  · exact .error _
  · exact .ok h

theorem ofChildren_outcomes {t t' : Table} {cs cs' : List Node}
    (below : Relabels (Expression s cx) t t' cs cs') {path path' : List String} (root : path ≠ [])
    (root' : path' ≠ []) (own : ∀ a a', t.LabelPair t' a a' → (a, a') ∈ labels)
    (inner : (Node.tableLabelsIn cs).zip (Node.tableLabelsIn cs') ⊆ labels)
    (within : childItems fl t path cs ⊆ items) (within' : childItems fl t' path' cs' ⊆ items')
    {fields fields' : List (String × ShapeField)}
    (before : SameFields (ReadAlike s cx fl labels items items') fields fields') :
    Outcomes (SameFields (ReadAlike s cx fl labels items items'))
      (ofChildren (outputPath path) fields cs) (ofChildren (outputPath path') fields' cs') := by
  -- `before` carries that each field read so far is an item of both statements; `within` and
  -- `within'` give the items for the fields still to come
  induction below generalizing path path' fields fields' with
  | nil => exact .ok before
  | column same _ inductionHypothesis =>
    obtain ⟨here, later⟩ := List.cons_subset.mp within
    obtain ⟨here', later'⟩ := List.cons_subset.mp within'
    rw [ofChildren, ofChildren, same.fieldName, same.isIdentity]
    exact inductionHypothesis root root' own inner later later' (before.addColumn _
      ⟨_, here, _, here', Sql.columnSource_same own same, rfl, rfl⟩ _)
  | composite columns label label' location _ inductionHypothesis =>
    obtain ⟨here, later⟩ := List.cons_subset.mp within
    obtain ⟨here', later'⟩ := List.cons_subset.mp within'
    rw [ofChildren, ofChildren]
    exact inductionHypothesis root root' own inner later later' (before.addColumn _
      ⟨_, here, _, here', .composite (own _ _ .own) columns, rfl, rfl⟩ true)
  | noop fieldName location _ inductionHypothesis =>
    rw [ofChildren, ofChildren]
    exact inductionHypothesis root root' own inner within within' before
  | @table t t' u u' cs cs' ds ds' same below _ belowHypothesis laterHypothesis =>
    have keys := same.batchKeys?
    simp only [childItems, nodeItems, List.append_subset] at within within'
    obtain ⟨here, later⟩ := within
    obtain ⟨here', later'⟩ := within'
    rw [Relabels.zip_tableLabelsIn same below, List.append_subset, List.append_subset] at inner
    obtain ⟨⟨innerOwn, innerBelow⟩, innerLater⟩ := inner
    rw [ofChildren, ofChildren]
    generalize u.batchKeys? = k at keys here ⊢
    generalize u'.batchKeys? = k' at keys here' ⊢
    cases keys with
    | some keys =>
      cases keys with
      | mk this parent =>
        exact laterHypothesis root root' own innerLater later later' (before.addColumn _
          ⟨_, here (List.mem_cons_self ..), _, here' (List.mem_cons_self ..),
            .column (own _ _ .own) _, rfl, rfl⟩ false)
    | none =>
      have nested := belowHypothesis (List.append_ne_nil_of_right_ne_nil path (by simp))
        (List.append_ne_nil_of_right_ne_nil path' (by simp))
        (fun a a' pair => innerOwn (same.mem_zip_labels pair)) innerBelow here here' .nil
      rw [Sql.outputPath_concat root, Sql.outputPath_concat root'] at nested
      apply (ofNode_outcomes same nested).bind
      rintro ⟨inner⟩ ⟨inner'⟩ shapes
      rw [same.fieldName, same.many]
      exact laterHypothesis root root' own innerLater later later' (before.concat_nested _ shapes _)

/-- The objects of two tables that differ in labels have the same fields, read under names of one
source in the statements of the tables. -/
theorem ofNode_statements (fl : Sql.Flavor) {t t' : Table} {cs cs' : List Node}
    (same : t.Relabelled t') (below : Relabels (Expression s cx) t t' cs cs') :
    Outcomes (fun shape shape' => SameFields (ReadAlike s cx fl
        ((Node.tableLabels (.table t cs)).zip (Node.tableLabels (.table t' cs')))
        (childItems fl t [t.label] cs) (childItems fl t' [t'.label] cs'))
          shape.fields shape'.fields)
      (ofNode "" (.table t cs)) (ofNode "" (.table t' cs')) := by
  have labels : (Node.tableLabels (.table t cs)).zip (Node.tableLabels (.table t' cs')) =
      t.labels.zip t'.labels ++ (Node.tableLabelsIn cs).zip (Node.tableLabelsIn cs') := by
    rw [Node.tableLabels, Node.tableLabels, List.zip_append same.length_labels.symm]
  apply ofNode_outcomes same
  refine ofChildren_outcomes below (List.cons_ne_nil t.label []) (List.cons_ne_nil t'.label [])
    (fun a a' pair => ?_) ?_ (List.Subset.refl _) (List.Subset.refl _) .nil
  · rw [labels]
    exact List.mem_append_left _ (same.mem_zip_labels pair)
  · rw [labels]
    exact List.subset_append_right _ _

theorem checkTable_relabelled {t t' : Table} {cs cs' : List Node} (same : t.Relabelled t')
    (below : Relabels (Expression s cx) t t' cs cs') :
    checkTable (.table t' cs') = checkTable (.table t cs) := by
  have shapes := ofNode_statements .sqlite same below
  exact (Outcomes.eq_iff.mp (shapes.map (fun _ _ _ => rfl))).symm

theorem checkBatches_relabelled {t t' : Table} {cs cs' : List Node}
    (below : Relabels (Expression s cx) t t' cs cs') : checkBatches cs' = checkBatches cs := by
  induction below with
  | nil => rfl
  | column _ _ inductionHypothesis | composite _ _ _ _ _ inductionHypothesis
  | noop _ _ _ inductionHypothesis =>
    simp only [checkBatches, checkBatch, inductionHypothesis]
  | table here below _ belowHypothesis laterHypothesis =>
    rw [checkBatches, checkBatches, checkBatch, checkBatch, laterHypothesis, belowHypothesis,
      here.isBatch, checkTable_relabelled here below]

/-- Plans that differ in labels have shapes for all their statements, or lack one for one reason. -/
theorem checkPlan_relabelled {root root' : Node} (h : root.Relabelled (Expression s cx) root') :
    checkPlan root' = checkPlan root := by
  cases h with
  | noop _ _ => rfl
  | table here below =>
    rw [checkPlan, checkPlan, here.join, here.location, checkTable_relabelled here below,
      checkBatches_relabelled below]

end Shape

end TreeQuery
