import TreeQuery.Hydration
import TreeQuery.Proofs.Fields
import TreeQuery.Proofs.Grouping
import TreeQuery.Proofs.Success

/-!
Hydration of rows that carry every label of the shape. It cannot fail then, and what it returns is
a total function of the rows that groups them by their identities.
-/

namespace TreeQuery

namespace Shape

mutual

/-- The labels of all columns of a shape, at any depth. -/
def labels : Shape → List String
  | .mk fields => labelsIn fields

def labelsIn : List (String × ShapeField) → List String
  | [] => []
  | (_, f) :: r => labelsOf f ++ labelsIn r

def labelsOf : ShapeField → List String
  | .column a _ => [a]
  | .nested s _ => labels s

end

theorem identityOf_subset (fields : List (String × ShapeField)) :
    identityOf fields ⊆ labelsIn fields := by
  induction fields with
  | nil => simp [identityOf]
  | cons p r ih =>
    obtain ⟨n, f⟩ := p
    rcases f with ⟨a, _ | _⟩ | ⟨s, many⟩
    · exact List.subset_append_of_subset_right _ ih
    · exact List.cons_subset_cons a ih
    · exact List.subset_append_of_subset_right _ ih

end Shape

/-- The value of a field, null if it is missing. -/
def Fields.valueAt (fs : Fields Value) (name : String) : Value := (get? fs name).getD .null

theorem Fields.map_valueAt {fs : Fields Value} (h : fs.names.Nodup) :
    fs.names.map (fun n => (n, fs.valueAt n)) = fs := by
  induction fs with
  | nil => rfl
  | cons f fs ih =>
    obtain ⟨m, v⟩ := f
    obtain ⟨fresh, later⟩ := List.nodup_cons.mp h
    have rest : (names fs).map (fun n => (n, valueAt ((m, v) :: fs) n)) = fs := by
      refine Eq.trans ?_ (ih later)
      apply List.map_congr_left
      intro n hn
      have hm : m ≠ n := fun e => fresh (e ▸ hn)
      simp [valueAt, get?_cons, hm]
    rw [names_cons, List.map_cons, rest]
    simp [valueAt, get?_cons]

def Row.value (r : Row) (label : String) : Value := Fields.valueAt r.cells label

theorem Row.get?_of_mem {r : Row} {label : String} (h : label ∈ r.columns) :
    r.get? label = some (r.value label) := by
  obtain ⟨v, hv⟩ := Option.isSome_iff_exists.mp (Fields.isSome_get?.mpr h)
  rw [value, get?, Fields.valueAt, hv]
  rfl

theorem Row.value_of_get? {r : Row} {label : String} {v : Value} (h : r.get? label = some v) :
    r.value label = v := by
  rw [Row.value, Fields.valueAt]
  exact congrArg (fun found : Option Value => found.getD .null) h

namespace Hydration

open Shape (labels labelsIn labelsOf identityOf)

def keyOf (labels : List String) (r : Row) : Identity := labels.map (fun a => (r.value a).key?)

def matchedKeys (labels : List String) (rows : List Row) : List Identity :=
  (rows.map (keyOf labels)).filter isMatched

/-- The rows by their identities, in order of first appearance. -/
def groupsOf (labels : List String) (rows : List Row) : Grouping Identity Row :=
  (distinct (matchedKeys labels rows)).map
    (fun k => (k, rows.filter (fun r => keyOf labels r = k)))

mutual

/-- What hydration returns for rows that carry every label. -/
def values : Shape → List Row → List Value
  | .mk fields, rows => (groupsOf (identityOf fields) rows).map
      (fun g => .object (Fields.ofPairs (fieldsOf fields g.2)))

def fieldsOf : List (String × ShapeField) → List Row → List (String × Value)
  | [], _ => []
  | (name, f) :: r, rows => (name, valueOf f rows) :: fieldsOf r rows

def valueOf : ShapeField → List Row → Value
  | .column a _, rows => (rows.head?.map (fun r => r.value a)).getD .null
  | .nested s many, rows => if many then .list (values s rows) else (values s rows).headD .null

end

/-- Each row has a column for each label. -/
def Carry (rows : List Row) (labels : List String) : Prop := ∀ r ∈ rows, labels ⊆ r.columns

theorem Carry.mono {rows rows' : List Row} {labels labels' : List String} (h : Carry rows labels)
    (hr : rows' ⊆ rows) (hl : labels' ⊆ labels) : Carry rows' labels' :=
  fun r hm => List.Subset.trans hl (h r (hr hm))

theorem identity_eq {labels : List String} {r : Row} (h : labels ⊆ r.columns) :
    identity labels r = .ok (keyOf labels r) := by
  apply mapM_eq_ok_map
  intro a ha
  simp [cell, Row.get?_of_mem (h ha), Except.map]

theorem groupRows_eq {labels : List String} {rows : List Row} (h : Carry rows labels) :
    groupRows labels rows = .ok (groupsOf labels rows) := by
  have identified : rows.mapM (fun r => (identity labels r).map (fun k => (k, r))) =
      .ok (rows.map (fun r => (keyOf labels r, r))) := by
    apply mapM_eq_ok_map
    intro r hr
    simp [identity_eq (h r hr), Except.map]
  let pairs := (rows.map (fun r => (keyOf labels r, r))).filter (fun p => isMatched p.1)
  have keys : pairs.map Prod.fst = matchedKeys labels rows := by
    simp only [pairs, matchedKeys, List.filter_map, List.map_map]
    rfl
  have members (k : Identity) (hk : k ∈ matchedKeys labels rows) :
      (pairs.filter (fun p => p.1 = k)).map Prod.snd = rows.filter (fun r => keyOf labels r = k) := by
    have matched := (List.mem_filter.mp hk).2
    simp only [pairs, List.filter_filter, List.filter_map, List.map_map]
    refine (List.map_id _).trans (List.filter_congr ?_)
    intro r _
    by_cases hr : keyOf labels r = k
    · simp [hr, matched]
    · simp [hr]
  rw [groupRows, identified]
  change Except.ok (Grouping.ofPairs pairs) = _
  rw [Grouping.ofPairs_eq, keys, groupsOf]
  congr 1
  apply List.map_congr_left
  intro k hk
  rw [members k (mem_distinct.mp hk)]

mutual

theorem objects_eq : (s : Shape) → {rows : List Row} → Carry rows s.labels →
    objects s rows = .ok (values s rows)
  | .mk fields, rows, h => by
    have groups := groupRows_eq (h.mono (List.Subset.refl _) (Shape.identityOf_subset fields))
    rw [objects, groups]
    change List.mapM _ _ = _
    apply mapM_eq_ok_map
    intro g hg
    obtain ⟨k, _, rfl⟩ := List.mem_map.mp hg
    have part : Carry (rows.filter (fun r => keyOf (identityOf fields) r = k)) (labelsIn fields) :=
      h.mono (List.filter_subset_self rows) (List.Subset.refl _)
    rw [objectFields_eq fields part]
    rfl

theorem objectFields_eq : (fields : List (String × ShapeField)) → {rows : List Row} →
    Carry rows (labelsIn fields) → objectFields fields rows = .ok (fieldsOf fields rows)
  | [], _, _ => rfl
  | (n, f) :: r, rows, h => by
    have here := fieldValue_eq f (h.mono (List.Subset.refl _) (List.subset_append_left _ _))
    have rest := objectFields_eq r (h.mono (List.Subset.refl _) (List.subset_append_right _ _))
    rw [objectFields, here, rest]
    rfl

theorem fieldValue_eq : (f : ShapeField) → {rows : List Row} → Carry rows (labelsOf f) →
    fieldValue f rows = .ok (valueOf f rows)
  | .column a _, [], _ => rfl
  | .column a _, r :: rows, h => by
    have present : a ∈ r.columns := h r (by simp) (by simp [labelsOf])
    simp [fieldValue, valueOf, cell, Row.get?_of_mem present]
  | .nested s many, rows, h => by
    rw [fieldValue, objects_eq s h]
    rfl

end

end Hydration

end TreeQuery
