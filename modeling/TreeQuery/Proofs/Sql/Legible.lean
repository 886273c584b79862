import TreeQuery.Proofs.Hydration.Scalars

/-!
Rows from which every item of a statement can be read under its name. With short labels no two items
share a name; otherwise those that do have to select the same.
-/

namespace TreeQuery.Sql

open Plan (Joined Node Table)

namespace Statement

variable (fl : Flavor) (st : Statement)

/-- Items that share a name select one source. -/
def SourcesApart : Prop :=
  ∀ i ∈ st.part.items, ∀ j ∈ st.part.items, i.output = j.output →
    i.source.text fl = j.source.text fl

/-- Under the name of an item a row has what the item selects. -/
def Legible : Prop :=
  ∀ i ∈ st.part.items, ∀ ρ, (st.row fl ρ).get? i.output = some (ρ (i.source.text fl))

variable {fl : Flavor} {st : Statement}

theorem SourcesApart.legible (apart : st.SourcesApart fl) : st.Legible fl := by
  intro i member ρ
  obtain ⟨j, found⟩ : ∃ j, st.part.items.find? (fun j => j.output = i.output) = some j :=
    Option.isSome_iff_exists.mp (List.find?_isSome.mpr ⟨i, member, by simp⟩)
  have named : j.output = i.output := by simpa using List.find?_some found
  have source := apart j (List.mem_of_find?_eq_some found) i member named
  rw [Row.get?, row, Fields.get?_map, Part.find?_selected, found, Option.map_some, source]

end Statement

variable {fl : Flavor} {Ctx : Type} {s : Schema Ctx} {cx : Ctx} {x : Selection} {root : Node}

/-- Columns of a table that have one label are one, if labels are short. -/
theorem ownColumns_eq_of_label {p : Table} {nodes : List Node}
    (distinct : (Node.labels (.table p nodes)).Nodup) {c d : OwnColumn}
    (first : c ∈ ownColumns fl p nodes) (second : d ∈ ownColumns fl p nodes)
    (same : c.label = d.label) : c = d := by
  have labels := Plan.ownEntries_nodup distinct
  rw [ownEntries_eq fl p, List.map_map] at labels
  exact List.inj_on_of_nodup_map labels first second same

/-- Short labels leave every item legible. -/
theorem legible_of_short (valid : s.Valid) (planned : s.plan true cx x = .ok root) {t : Table}
    {children : List Node} (member : (t, children) ∈ root.statementRoots)
    {scope : Option (List Value)} {st : Statement}
    (stated : statement fl (.table t children) scope = .ok st) : st.Legible fl := by
  have coherent := Node.everywhere_statementRoot (Plan.plan_coherent valid planned) member
  have tables := (List.nodup_append.mp (Plan.plan_tableLabels planned)).2.1.sublist
    (Node.tableLabels_statementRoot member)
  have columns := Node.everywhere_labels_nodup root
    (List.nodup_append.mp (Plan.plan_labels_nodup planned)).2.1
  intro i selected ρ
  rw [statement_items coherent stated] at selected
  obtain ⟨path, p, nodes, here, c, own, rfl⟩ := selected_iff.mp selected
  obtain ⟨d, other, label, first⟩ :=
    (separated_of_short planned member).firstSource? tables here own
  have distinct := (here.everywhere (Node.everywhere_statementRoot columns member)).1
  obtain rfl := ownColumns_eq_of_label distinct other own label
  rw [Statement.get?_row coherent stated, first]
  rfl

end TreeQuery.Sql
