import TreeQuery.Proofs.Batch.Correlation
import TreeQuery.Proofs.Plan.Columns

/-!
Rows that stand for one object each: where a table has no joined tables and each of its rows an
identity of its own, hydration leaves the rows as they come.
-/

namespace TreeQuery

open Plan (Leaves Node Plain Table)

namespace Shape

/-- Columns that are no part of the identity leave it as it is. -/
theorem ofChildren_plain {nodes : List Node} (leaves : Leaves nodes) (plain : Plain nodes)
    (path : String) (fields : List (String × ShapeField)) : ∃ fields',
      ofChildren path fields nodes = .ok fields' ∧ identityOf fields' = identityOf fields := by
  induction nodes generalizing fields with
  | nil => exact ⟨fields, rfl, rfl⟩
  | cons n nodes inductionHypothesis =>
    obtain ⟨leaf, others⟩ := List.forall_mem_cons.mp leaves
    obtain ⟨ordinary, plain'⟩ := List.forall_mem_cons.mp plain
    cases n with
    | table t children => cases leaf
    | column c =>
      have apart : c.isIdentity = false := ordinary
      obtain ⟨fields', made, same⟩ := inductionHypothesis others plain'
        (addColumn c.fieldName (path ++ c.label) c.isIdentity fields)
      refine ⟨fields', made, ?_⟩
      rw [same, apart, identityOf_addColumn]
    | composite c => cases ordinary
    | noop name l => exact inductionHypothesis others plain' fields

end Shape

namespace Plan

/-- The text of what a column of a table is selected from. -/
def Node.sourceText (fl : Sql.Flavor) (t : Table) : Node → String
  | .column c => (Sql.columnSource t c).text fl
  | .composite c => (Sql.compositeSource fl t c.columns).text fl
  | _ => ""

/-- What the objects of a table are told apart by, which is the first of its columns. -/
def identityText (fl : Sql.Flavor) (t : Table) (children : List Node) : String :=
  (children.head?.map (Node.sourceText fl t)).getD ""

/-- What holds without nodes, and does not mind one more column, holds of columns. -/
theorem leaves_induction {P : List Node → Prop} (nil : P [])
    (column : ∀ c nodes, P nodes → P (.column c :: nodes))
    (composite : ∀ c nodes, P nodes → P (.composite c :: nodes))
    (noop : ∀ name l nodes, P nodes → P (.noop name l :: nodes)) {nodes : List Node}
    (leaves : Leaves nodes) : P nodes := by
  induction nodes with
  | nil => exact nil
  | cons n nodes inductionHypothesis =>
    obtain ⟨leaf, others⟩ := List.forall_mem_cons.mp leaves
    have later := inductionHypothesis others
    cases n with
    | table t children => cases leaf
    | column c => exact column c nodes later
    | composite c => exact composite c nodes later
    | noop name l => exact noop name l nodes later

theorem joinedNames_leaves {nodes : List Node} (leaves : Leaves nodes) :
    Node.joinedNames nodes = [] :=
  leaves_induction (P := fun nodes => Node.joinedNames nodes = []) rfl
    (fun _ _ later => later) (fun _ _ later => later) (fun _ _ _ later => later) leaves

end Plan

namespace Sql

variable {fl : Flavor} {t : Table}

theorem firstSource?_cons {n : Node} {source : Fragment} {output : String}
    (item : nodeItems fl t [t.label] n = [⟨source, output⟩]) (nodes : List Node) (label : String) :
    firstSource? fl t (n :: nodes) label =
      if output = label then some (source.text fl) else firstSource? fl t nodes label := by
  rw [firstSource?, childItems, item, List.singleton_append, List.find?_cons, firstSource?]
  by_cases same : output = label <;> simp [same]

/-- Under a label, the first column of that label is selected. -/
theorem firstSource?_leaves {children : List Node} (leaves : Leaves children) (fl : Flavor)
    (t : Table) (label : String) : firstSource? fl t children label = (children.find?
      (fun n => n.entry?.map Prod.snd = some label)).map (Node.sourceText fl t) := by
  have root (a : String) : outputPath [t.label] ++ a = a := String.empty_append
  refine Plan.leaves_induction (P := fun children => firstSource? fl t children label =
    (children.find? (fun n => n.entry?.map Prod.snd = some label)).map (Node.sourceText fl t))
    rfl ?_ ?_ ?_ leaves
  · intro c nodes later
    rw [firstSource?_cons rfl, root, later, List.find?_cons]
    by_cases same : c.label = label <;> simp [Node.entry?, Node.sourceText, same]
  · intro c nodes later
    rw [firstSource?_cons rfl, root, later, List.find?_cons]
    by_cases same : c.label = label <;> simp [Node.entry?, Node.sourceText, same]
  · intro name l nodes later
    exact later

end Sql

namespace Hydration

section Rows

variable {fields : List (String × ShapeField)} {rows : List Row}

theorem filter_of_nodup_map {α β : Type} [DecidableEq β] {f : α → β} {l : List α}
    (distinct : (l.map f).Nodup) {a : α} (member : a ∈ l) :
    l.filter (fun b => f b = f a) = [a] := by
  induction l with
  | nil => cases member
  | cons b l inductionHypothesis =>
    obtain ⟨fresh, distinct⟩ := List.nodup_cons.mp distinct
    rcases List.mem_cons.mp member with rfl | later
    · have others : l.filter (fun b => f b = f a) = [] := by
        apply List.filter_eq_nil_iff.mpr
        intro b hb
        rw [decide_eq_true_eq]
        exact fun same => fresh (same ▸ List.mem_map_of_mem hb)
      rw [List.filter_cons_of_pos (by simp), others]
    · have different : ¬f b = f a := fun same => fresh (same ▸ List.mem_map_of_mem later)
      rw [List.filter_cons_of_neg (by simpa using different), inductionHypothesis distinct later]

theorem values_singles (matched : ∀ r ∈ rows, isMatched (keyOf (Shape.identityOf fields) r) = true)
    (distinct : (rows.map (keyOf (Shape.identityOf fields))).Nodup) :
    values (.mk fields) rows =
      rows.map (fun r => .object (Fields.ofPairs (fieldsOf fields [r]))) := by
  have keys : matchedKeys (Shape.identityOf fields) rows =
      rows.map (keyOf (Shape.identityOf fields)) := by
    apply List.filter_eq_self.mpr
    intro k hk
    obtain ⟨r, hr, rfl⟩ := List.mem_map.mp hk
    exact matched r hr
  rw [values, groupsOf, keys, distinct_of_nodup distinct, List.map_map, List.map_map]
  apply List.map_congr_left
  intro r hr
  simp only [Function.comp_apply]
  rw [filter_of_nodup_map distinct hr]

end Rows

section Columns

variable {fl : Sql.Flavor} {t : Table} {children : List Node} {st : Sql.Statement}

/-- A table of columns has a shape, and one column of it is the identity. -/
theorem shape_columnsOnly (fl : Sql.Flavor) (only : Plan.ColumnsOnly t children) : ∃ fields label,
    Shape.ofNode "" (.table t children) = .ok (.mk fields) ∧
    Shape.ofChildren "" [] children = .ok fields ∧ Shape.identityOf fields = [label] ∧
    Sql.firstSource? fl t children label = some (Plan.identityText fl t children) := by
  obtain ⟨first, rest, rfl, identifies, plain⟩ := only.identity
  obtain ⟨leaf, leaves⟩ := List.forall_mem_cons.mp only.leaves
  -- The first column is the identity, and the columns after it add nothing to that.
  have whole (a : List (String × ShapeField)) (label : String) (own : Shape.identityOf a = [label])
      (here : Shape.ofChildren "" [] (first :: rest) = Shape.ofChildren "" a rest) :
      ∃ fields, Shape.ofNode "" (.table t (first :: rest)) = .ok (.mk fields) ∧
        Shape.ofChildren "" [] (first :: rest) = .ok fields ∧
        Shape.identityOf fields = [label] := by
    obtain ⟨fields, made, same⟩ := Shape.ofChildren_plain leaves plain "" a
    rw [own] at same
    rw [made] at here
    exact ⟨fields, Shape.ofNode_table_ok.mpr ⟨fields, here, by simp [same], rfl⟩, here, same⟩
  have source (label : String) (item : Sql.SelectItem) (output : item.output = label)
      (items : Sql.childItems fl t [t.label] (first :: rest) =
        item :: Sql.childItems fl t [t.label] rest) :
      Sql.firstSource? fl t (first :: rest) label = some (item.source.text fl) := by
    rw [Sql.firstSource?, items, List.find?_cons_of_pos (by simpa using output)]
    rfl
  cases first with
  | table u below => cases leaf
  | noop name l => cases identifies
  | column c =>
    have part : c.isIdentity = true := identifies
    obtain ⟨fields, shaped, below, identity⟩ := whole [(c.fieldName, .column ("" ++ c.label) true)]
      c.label (by simp [Shape.identityOf]) (by rw [Shape.ofChildren, part]; rfl)
    exact ⟨fields, c.label, shaped, below, identity, source _ _ (String.empty_append) rfl⟩
  | composite c =>
    obtain ⟨fields, shaped, below, identity⟩ := whole [(c.fieldName, .column ("" ++ c.label) true)]
      c.label (by simp [Shape.identityOf]) (by rw [Shape.ofChildren]; rfl)
    exact ⟨fields, c.label, shaped, below, identity, source _ _ (String.empty_append) rfl⟩

/-- The object of a row that no other row belongs to. -/
def single (fl : Sql.Flavor) (st : Sql.Statement) (s : Shape) (ρ : String → Value) : Value :=
  .object (Fields.ofPairs (fieldsOf s.fields [st.row fl ρ]))

/-- Rows that differ in what their table's objects are told apart by become an object each. -/
theorem objects_singles (coherent : (Node.table t children).Everywhere Table.Coherent)
    (stated : Sql.statement fl (.table t children) none = .ok st)
    {fields : List (String × ShapeField)}
    (shaped : Shape.ofNode "" (.table t children) = .ok (.mk fields)) {label : String}
    (identity : Shape.identityOf fields = [label])
    (first : Sql.firstSource? fl t children label = some (Plan.identityText fl t children))
    {rows : List (String → Value)}
    (identified : ∀ ρ ∈ rows, (ρ (Plan.identityText fl t children)).key?.isSome)
    (distinct : (rows.map (fun ρ => (ρ (Plan.identityText fl t children)).key?)).Nodup) :
    objects (.mk fields) (rows.map (st.row fl)) = .ok (rows.map (single fl st (.mk fields))) := by
  have keys (ρ : String → Value) : keyOf (Shape.identityOf fields) (st.row fl ρ) =
      [(ρ (Plan.identityText fl t children)).key?] := by
    have cell := Sql.Statement.get?_row coherent stated ρ label
    rw [first, Row.get?] at cell
    rw [identity, keyOf, List.map_singleton, Row.value, Fields.valueAt, cell]
    rfl
  rw [objects_eq _ (carry_rows (Shape.labels_subset_outputs coherent shaped stated) rows),
    values_singles, List.map_map]
  · rfl
  · intro r hr
    obtain ⟨ρ, hρ, rfl⟩ := List.mem_map.mp hr
    obtain ⟨k, hk⟩ := Option.isSome_iff_exists.mp (identified ρ hρ)
    rw [keys, hk]
    rfl
  · have injective : Function.Injective (fun k : Option Key => [k]) :=
      fun _ _ => List.singleton_inj.mp
    have apart := distinct.map injective
    rw [List.map_map] at apart ⊢
    exact List.map_congr_left (fun ρ _ => keys ρ) ▸ apart

theorem labelFor?_leaf {n : Node} (leaf : n.table? = none) {name label : String} :
    n.labelFor? name = some label ↔ n.entry? = some (name, label) := by
  cases n with
  | table u below => cases leaf
  | noop m l => simp [Node.labelFor?, Node.entry?]
  | column c => simp [Node.labelFor?, Node.entry?]
  | composite c => simp [Node.labelFor?, Node.entry?]

/-- What is read under a name is the first column of that name, under its label. -/
theorem labelAt?_columnsOnly (fl : Sql.Flavor) (only : Plan.ColumnsOnly t children)
    {fields : List (String × ShapeField)}
    (below : Shape.ofChildren "" [] children = .ok fields) {name label : String}
    (present : (name, label) ∈ Node.entries children) :
    ∃ n ∈ children, ∃ label, n.entry? = some (name, label) ∧
      Shape.labelAt? fields name = some (some label) ∧
      Sql.firstSource? fl t children label = some (n.sourceText fl t) := by
  obtain ⟨n, hn, entry⟩ := List.mem_filterMap.mp present
  obtain ⟨label', named⟩ : ∃ label', Node.firstLabel? children name = some label' := by
    apply Option.isSome_iff_exists.mp
    rw [Node.firstLabel?, List.findSome?_isSome_iff]
    exact ⟨n, hn, by rw [(labelFor?_leaf (only.leaves n hn)).mpr entry]; rfl⟩
  obtain ⟨n', hn', named'⟩ := List.exists_of_findSome?_eq_some named
  have entry' := (labelFor?_leaf (only.leaves n' hn')).mp named'
  obtain ⟨m, found⟩ : ∃ m, children.find? (fun n => n.entry?.map Prod.snd = some label') = some m := by
    apply Option.isSome_iff_exists.mp
    rw [List.find?_isSome]
    exact ⟨n', hn', by simp [entry']⟩
  have hm := List.mem_of_find?_eq_some found
  have labelled : m.entry?.map Prod.snd = some label' := by simpa using List.find?_some found
  obtain ⟨⟨field, _⟩, entry'', rfl⟩ := Option.map_eq_some_iff.mp labelled
  have same := only.field_of_label _ (List.mem_filterMap.mpr ⟨m, hm, entry''⟩) _
    (List.mem_filterMap.mpr ⟨n', hn', entry'⟩) rfl
  obtain rfl : field = name := same
  refine ⟨m, hm, _, entry'', ?_, ?_⟩
  · rw [Shape.labelAt?_ofChildren _ below, Plan.joinedNames_leaves only.leaves, named]
    simp [Shape.labelAt?, Fields.last?]
  · rw [Sql.firstSource?_leaves only.leaves, found, Option.map_some]

end Columns

end Hydration

end TreeQuery
