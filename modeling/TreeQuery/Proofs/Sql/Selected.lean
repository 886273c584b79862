import TreeQuery.Proofs.Plan.WellFormed
import TreeQuery.Proofs.Text.Identifier
import TreeQuery.Sql.OfPlan

/-!
What a statement selects. The items follow from the plan alone, whatever the conditions and pages
of its tables are, and dropping items that are written alike keeps the first item of each name.
-/

namespace TreeQuery.Sql

open Plan (Node Table)

@[simp] theorem Part.items_append (a b : Part) : (a ++ b).items = a.items ++ b.items := rfl

section Alike

variable {α : Type} {f : α → String} {p : α → Bool}

/-- Of elements with one text only the first is kept, so no search by what the text determines
can tell. -/
theorem find?_eraseDupsBy (hp : ∀ a b, f a = f b → p a = p b) (l : List α) :
    (l.eraseDupsBy (fun a b => f a == f b)).find? p = l.find? p := by
  generalize hn : l.length = n
  induction n using Nat.strongRecOn generalizing l with
  | ind n ih =>
    cases l with
    | nil => rfl
    | cons a l =>
      rw [List.eraseDupsBy_cons, List.find?_cons, List.find?_cons]
      cases ha : p a with
      | true => rfl
      | false =>
        have shorter := List.length_filter_le (fun b => (f b == f a) = false) l
        have kept := ih _ (by simp only [List.length_cons] at hn; omega)
          (l.filter (fun b => (f b == f a) = false)) rfl
        refine kept.trans ?_
        rw [List.find?_filter]
        congr 1
        funext b
        by_cases hb : f b = f a
        · simp [hb, hp b a hb, ha]
        · simp [hb]

end Alike

theorem SelectItem.output_eq_of_text {fl : Flavor} {a b : SelectItem}
    (h : a.text fl = b.text fl) : a.output = b.output := by
  have written (i : SelectItem) : (i.text fl).toList =
      ((i.source.text fl).toList ++ [' ', 'A', 'S']) ++ ' ' :: (Identifier.quote i.output).toList := by
    simp [SelectItem.text]
  have same := congrArg String.toList h
  rw [written, written] at same
  exact Identifier.quote_inj_of_append same

/-- The first selected item under a name is the first item under it. -/
theorem Part.find?_selected (fl : Flavor) (p : Part) (name : String) :
    (p.selected fl).find? (fun i => i.output = name) = p.items.find? (fun i => i.output = name) := by
  apply find?_eraseDupsBy
  intro a b h
  rw [SelectItem.output_eq_of_text h]

theorem Part.mem_outputs {fl : Flavor} {p : Part} {name : String} :
    name ∈ (p.selected fl).map SelectItem.output ↔ name ∈ p.items.map SelectItem.output := by
  have found (l : List SelectItem) :
      name ∈ l.map SelectItem.output ↔ (l.find? (fun i => i.output = name)).isSome := by
    simp
  rw [found, found, Part.find?_selected]

/-- The columns that the rows of a statement have. -/
def Statement.outputs (fl : Flavor) (st : Statement) : List String :=
  (st.part.selected fl).map SelectItem.output

/-- The key of a parent that the children of a batch boundary are matched by. -/
def keyItems (parent : Option Table) (path : List String) (t : Table) : List SelectItem :=
  match parent, t.batchKeys? with
  | some p, some keys => (parentKey p path keys.parentKey).items
  | _, _ => []

mutual

/-- What a node below a table adds to the select items of the table's statement. -/
def nodeItems (fl : Flavor) (parent : Table) (path : List String) : Node → List SelectItem
  | .table t children => match t.batchKeys? with
    | some keys => (parentKey parent path keys.parentKey).items
    | none => childItems fl t (path ++ [t.label]) children
  | .column c => (selectOnly (columnSource parent c) path c.label).items
  | .composite c => (selectOnly (compositeSource fl parent c.columns) path c.label).items
  | .noop _ _ => []

def childItems (fl : Flavor) (parent : Table) (path : List String) : List Node → List SelectItem
  | [] => []
  | c :: r => nodeItems fl parent path c ++ childItems fl parent path r

end

section Parts

variable {fl : Flavor} {parent : Option Table} {path : List String} {scope : Option (List Value)}
variable {t : Table} {part : Part} {ps ps' : Params}

theorem joinPart_items {join : List Clause}
    (h : (joinPart fl parent t join).run ps = .ok (part, ps')) : part.items = [] := by
  unfold joinPart at h
  split at h
  · exact (run_throw_ok.mp h).elim
  split at h
  · obtain ⟨page, _, _, h⟩ := run_bind_ok.mp h
    obtain ⟨rfl, _⟩ := run_pure_ok.mp h
    rfl
  · obtain ⟨on, _, _, h⟩ := run_bind_ok.mp h
    obtain ⟨rfl, _⟩ := run_pure_ok.mp h
    rfl

theorem junctionPart_items {j : Plan.Junction}
    (h : (junctionPart fl parent t j).run ps = .ok (part, ps')) : part.items = [] := by
  unfold junctionPart at h
  split at h
  · exact (run_throw_ok.mp h).elim
  split at h
  · exact (run_throw_ok.mp h).elim
  · exact (run_throw_ok.mp h).elim
  split at h
  · obtain ⟨link, _, _, h⟩ := run_bind_ok.mp h
    obtain ⟨on, _, _, h⟩ := run_bind_ok.mp h
    obtain ⟨rfl, _⟩ := run_pure_ok.mp h
    rfl
  · obtain ⟨linked, _, _, h⟩ := run_bind_ok.mp h
    obtain ⟨link, _, _, h⟩ := run_bind_ok.mp h
    obtain ⟨on, _, _, h⟩ := run_bind_ok.mp h
    obtain ⟨rfl, _⟩ := run_pure_ok.mp h
    rfl

/-- Below another table a junction batch adds the parent's key, and at the root nothing. -/
theorem junctionBatchPart_items {j : Plan.Junction} {b : Plan.JunctionBatch}
    (h : (junctionBatchPart fl parent path scope t j b).run ps = .ok (part, ps')) :
    part.items = match parent with
      | some p => (parentKey p path b.keys.parentKey).items
      | none => [] := by
  cases parent with
  | some p =>
    obtain ⟨rfl, _⟩ := run_pure_ok.mp h
    rfl
  | none =>
    simp only [junctionBatchPart] at h
    split at h
    · exact (run_throw_ok.mp h).elim
    obtain ⟨values, _, _, h⟩ := run_bind_ok.mp h
    split at h
    · obtain ⟨page, _, _, h⟩ := run_bind_ok.mp h
      obtain ⟨rfl, _⟩ := run_pure_ok.mp h
      rfl
    · obtain ⟨on, _, _, h⟩ := run_bind_ok.mp h
      obtain ⟨within, _, _, h⟩ := run_bind_ok.mp h
      obtain ⟨rfl, _⟩ := run_pure_ok.mp h
      rfl

theorem batchPart_items {b : Plan.Batch}
    (h : (batchPart fl parent path scope t b).run ps = .ok (part, ps')) :
    part.items = match parent with
      | some p => (parentKey p path b.parentKey).items
      | none => [] := by
  cases parent with
  | some p =>
    obtain ⟨rfl, _⟩ := run_pure_ok.mp h
    rfl
  | none =>
    obtain ⟨values, _, _, h⟩ := run_bind_ok.mp h
    split at h
    · obtain ⟨page, _, _, h⟩ := run_bind_ok.mp h
      obtain ⟨rfl, _⟩ := run_pure_ok.mp h
      rfl
    · obtain ⟨within, _, _, h⟩ := run_bind_ok.mp h
      obtain ⟨rfl, _⟩ := run_pure_ok.mp h
      rfl

theorem rootPart_items (h : (rootPart fl parent t).run ps = .ok (part, ps')) : part.items = [] := by
  cases parent with
  | some p =>
    obtain ⟨_, _, stopped, _⟩ := run_bind_ok.mp h
    exact (run_throw_ok.mp stopped).elim
  | none =>
    unfold rootPart at h
    split at h
    · obtain ⟨page, _, _, h⟩ := run_bind_ok.mp h
      obtain ⟨rfl, _⟩ := run_pure_ok.mp h
      rfl
    · obtain ⟨rfl, _⟩ := run_pure_ok.mp h
      rfl

/-- A table in itself adds no items but the key of the parent that a batch boundary reads. -/
theorem tablePart_items (related : t.relationCount ≤ 1)
    (h : (tablePart fl parent path scope t).run ps = .ok (part, ps')) :
    part.items = keyItems parent path t := by
  obtain ⟨conditions, _, _, h⟩ := run_bind_ok.mp h
  obtain ⟨orders, _, _, h⟩ := run_bind_ok.mp h
  obtain ⟨relation, _, hr, h⟩ := run_bind_ok.mp h
  obtain ⟨rfl, _⟩ := run_pure_ok.mp h
  rw [Part.items_append, List.nil_append]
  rw [Table.relationCount_le_one] at related
  unfold relationPart at hr
  unfold keyItems Table.batchKeys? Table.junctionBatch?
  cases hj : t.join with
  | some join =>
    have apart := related.1 (by rw [hj]; rfl)
    rw [hj] at hr
    rw [apart.1, apart.2, joinPart_items hr]
    cases parent <;> rfl
  | none =>
    rw [hj] at hr
    cases hj : t.junction with
    | some j =>
      have apart := related.2 (by rw [hj]; rfl)
      rw [hj] at hr
      cases hb : j.batch with
      | some b =>
        simp only [hb] at hr
        rw [junctionBatchPart_items hr, apart]
        cases parent <;> simp [hb]
      | none =>
        simp only [hb] at hr
        rw [junctionPart_items hr, apart]
        cases parent <;> simp [hb]
    | none =>
      rw [hj] at hr
      cases hb : t.batch with
      | some b =>
        rw [hb] at hr
        rw [batchPart_items hr]
        cases parent <;> rfl
      | none =>
        rw [hb] at hr
        rw [rootPart_items hr]
        cases parent <;> rfl

end Parts

section Nodes

variable {fl : Flavor} {part : Part} {ps ps' : Params}

mutual

theorem nodePart_items {parent : Table} {path : List String} {scope : Option (List Value)} :
    (n : Node) → n.Everywhere Table.Coherent → {part : Part} → {ps ps' : Params} →
    (nodePart fl (some parent) path scope n).run ps = .ok (part, ps') →
    part.items = nodeItems fl parent path n
  | .table t children, hn, part, ps, ps', h => by
    obtain ⟨here, ps₁, hp, h⟩ := run_bind_ok.mp h
    have own := tablePart_items hn.1.related hp
    have batch := t.isBatch_eq
    rw [continues] at h
    rw [nodeItems]
    unfold keyItems at own
    cases hk : t.batchKeys? with
    | some keys =>
      rw [hk] at batch own
      rw [batch] at h
      obtain ⟨rfl, _⟩ := run_pure_ok.mp h
      exact own
    | none =>
      rw [hk] at batch own
      rw [batch] at h
      obtain ⟨below, ps₂, hb, h⟩ := run_bind_ok.mp h
      obtain ⟨rfl, _⟩ := run_pure_ok.mp h
      rw [Part.items_append, own, childrenPart_items children hn.2 hb]
      rfl
  | .column c, _, part, ps, ps', h => by
    obtain ⟨rfl, _⟩ := run_pure_ok.mp h
    rfl
  | .composite c, _, part, ps, ps', h => by
    obtain ⟨rfl, _⟩ := run_pure_ok.mp h
    rfl
  | .noop _ _, _, part, ps, ps', h => by
    obtain ⟨rfl, _⟩ := run_pure_ok.mp h
    rfl

theorem childrenPart_items {parent : Table} {path : List String} :
    (children : List Node) → Node.EverywhereIn Table.Coherent children → {part : Part} →
    {ps ps' : Params} → (childrenPart fl parent path children).run ps = .ok (part, ps') →
    part.items = childItems fl parent path children
  | [], _, part, ps, ps', h => by
    obtain ⟨rfl, _⟩ := run_pure_ok.mp h
    rfl
  | c :: r, hc, part, ps, ps', h => by
    obtain ⟨here, ps₁, hh, h⟩ := run_bind_ok.mp h
    obtain ⟨rest, ps₂, hr, h⟩ := run_bind_ok.mp h
    obtain ⟨rfl, _⟩ := run_pure_ok.mp h
    rw [Part.items_append, nodePart_items c hc.1 hh, childrenPart_items r hc.2 hr, childItems]

end

/-- A statement is stated by a table and its keys, if there are any, and its part is that of the
table's node. -/
theorem statement_ok {node : Node} {scope : Option (List Value)} {st : Statement} :
    statement fl node scope = .ok st ↔ node.table?.isSome ∧ scope.any List.isEmpty = false ∧
      (nodePart fl none [] scope node).run .empty = .ok (st.part, st.params) := by
  unfold statement
  cases found : node.table? with
  | none => simp
  | some t =>
    cases keyed : scope.any List.isEmpty with
    | true => simp
    | false =>
      simp only [Bool.false_eq_true, if_false, Option.isSome_some, true_and, map_eq_ok]
      constructor
      · rintro ⟨_, ran, rfl⟩
        exact ran
      · intro ran
        exact ⟨_, ran, rfl⟩

/-- The statement of a table is the table's own part, and then what the nodes below it add. -/
theorem statement_table {t : Table} {children : List Node} {scope : Option (List Value)}
    {st : Statement} (stated : statement fl (.table t children) scope = .ok st) :
    ∃ here rest ps, (tablePart fl none [] scope t).run .empty = .ok (here, ps) ∧
      (childrenPart fl t [t.label] children).run ps = .ok (rest, st.params) ∧
      here ++ rest = st.part := by
  obtain ⟨_, _, ran⟩ := statement_ok.mp stated
  obtain ⟨here, ps, first, ran⟩ := run_bind_ok.mp ran
  obtain ⟨rest, _, later, ran⟩ := run_bind_ok.mp ran
  obtain ⟨part, rfl⟩ := run_pure_ok.mp ran
  exact ⟨here, rest, ps, first, later, part⟩

/-- The statement of a table selects what stands below the table. -/
theorem statement_items {t : Table} {children : List Node} {scope : Option (List Value)}
    {st : Statement} (hn : (Node.table t children).Everywhere Table.Coherent)
    (h : statement fl (.table t children) scope = .ok st) :
    st.part.items = childItems fl t [t.label] children := by
  obtain ⟨here, below, _, hp, hb, stated⟩ := statement_table h
  have own := tablePart_items hn.1.related hp
  rw [← stated, Part.items_append, own, childrenPart_items children hn.2 hb]
  rfl

end Nodes

end TreeQuery.Sql
