import TreeQuery.Proofs.Connection.Conversion
import TreeQuery.Proofs.Hydration.Nested
import TreeQuery.Proofs.Plan.Boundaries
import TreeQuery.Proofs.Sql.Labels

/-!
Whether a batch is matched by the columns that its keys name. A hydrated object is read by the names
of fields, and a row by the names of columns, so another column or a joined table of the same name
can come first. Which one does is decided by the plan, before any row is known.
-/

namespace TreeQuery

open Plan (Node Table)
open Fields (last?)

namespace Plan

/-- The tables of one statement, with the labels on the way to them. -/
inductive Joined (t : Table) (children : List Node) : List String → Table → List Node → Prop
  | own : Joined t children [t.label] t children
  | joined {path : List String} {p u : Table} {nodes nodes' : List Node}
      (above : Joined t children path p nodes) (member : .table u nodes' ∈ nodes)
      (single : u.batchKeys? = none) : Joined t children (path ++ [u.label]) u nodes'

/-- The label of the table that has the key which children are matched by. -/
def Table.thisKeyLabel (t : Table) : String :=
  (t.junctionBatch?.bind (fun _ => t.junction.map Junction.label)).getD t.label

end Plan

namespace Sql

/-- The source of the first item that the statement of a table selects under a name. -/
def firstSource? (fl : Flavor) (t : Table) (children : List Node) (name : String) :
    Option String :=
  ((childItems fl t [t.label] children).find? (fun i => i.output = name)).map
    (fun i => i.source.text fl)

/-- Under a name the objects of a table have the column of this source: no joined table has the
name, and the first column under it is selected from there. -/
def SelectsFirst (fl : Flavor) (t : Table) (children : List Node) (path : List String)
    (nodes : List Node) (name source : String) : Prop :=
  name ∉ Node.joinedNames nodes ∧ (Node.firstLabel? nodes name).bind
    (fun label => firstSource? fl t children (outputPath path ++ label)) = some source

instance (fl : Flavor) (t : Table) (children : List Node) (path : List String) (nodes : List Node)
    (name source : String) : Decidable (SelectsFirst fl t children path nodes name source) :=
  inferInstanceAs (Decidable (_ ∧ _))

/-- A row of a statement, for what the sources of its select items are. -/
def Statement.row (fl : Flavor) (st : Statement) (ρ : String → Value) : Row :=
  ⟨(st.part.selected fl).map (fun i => (i.output, ρ (i.source.text fl)))⟩

variable {fl : Flavor} {t : Table} {children : List Node} {st : Statement}
variable {scope : Option (List Value)}

theorem Statement.columns_row (ρ : String → Value) : (st.row fl ρ).columns = st.outputs fl := by
  rw [Row.columns, row, outputs, List.map_map]
  rfl

/-- A cell holds what the first item of its name selects. -/
theorem Statement.get?_row (coherent : (Node.table t children).Everywhere Table.Coherent)
    (stated : statement fl (.table t children) scope = .ok st) (ρ : String → Value) (name : String) :
    (st.row fl ρ).get? name = (firstSource? fl t children name).map ρ := by
  rw [Row.get?, row, Fields.get?_map, Part.find?_selected, statement_items coherent stated,
    firstSource?, Option.map_map]
  rfl

end Sql

section Tables

variable {t : Table} {children : List Node} {shape : Shape}

/-- A row without nulls has an object for each table of its statement. -/
theorem Plan.Joined.hydrated (apart : (Node.table t children).Everywhere Table.JoinsApart)
    (shaped : Shape.ofNode "" (.table t children) = .ok shape) {path : List String} {p : Table}
    {nodes : List Node} (h : Joined t children path p nodes) :
    path ≠ [] ∧ (Node.table p nodes).Everywhere Table.JoinsApart ∧ ∃ fields,
      Shape.ofChildren (Sql.outputPath path) [] nodes = .ok fields ∧
      Shape.identityOf fields ≠ [] ∧ Shape.labelsIn fields ⊆ shape.labels ∧
      ∀ r : Row, shape.labels ⊆ r.columns → r.Keyed → Hydration.Hydrated shape [r] (.mk fields) [r]
        (Fields.ofPairs (Hydration.fieldsOf fields [r])) := by
  induction h with
  | own =>
    obtain ⟨fields, below, identity, rfl⟩ := Shape.ofNode_table_ok.mp shaped
    exact ⟨by simp, apart, fields, below, identity, List.Subset.refl _,
      fun r present keyed => .own (Hydration.folds_single present keyed identity)⟩
  | @joined path p u nodes nodes' above member single ih =>
    obtain ⟨named, apart, fields, below, identity, labels, outer⟩ := ih
    have batch : u.isBatch = false := by rw [u.isBatch_eq, single]; rfl
    obtain ⟨inner, nested, found⟩ := (Shape.last?_ofChildren below apart.1).2 u nodes' member batch
    have field := Fields.mem_of_last? found
    rw [← Sql.outputPath_concat named] at nested
    obtain ⟨fields', below', identity', rfl⟩ := Shape.ofNode_table_ok.mp nested
    have inside : Shape.labelsIn fields' ⊆ shape.labels :=
      List.Subset.trans (Hydration.subset_labelsIn field) labels
    have apart' := Node.everywhereIn_iff.mp apart.2 _ member
    refine ⟨by simp, apart', fields', below', identity', inside, fun r present keyed => ?_⟩
    have folds : Hydration.Folds (.mk fields') [r] [r] _ :=
      Hydration.folds_single (List.Subset.trans inside present) keyed identity'
    exact .nested (outer r present keyed) field folds

end Tables

namespace Hydration

variable {fl : Sql.Flavor} {t : Table} {children : List Node} {st : Sql.Statement}
variable {scope : Option (List Value)} {shape s : Shape} {name source : String}

/-- In every object of a shape that rows of a statement hydrate to, a field holds what its source
is in the first of the object's rows. -/
def Reads (fl : Sql.Flavor) (st : Sql.Statement) (shape s : Shape) (name source : String) : Prop :=
  ∀ (rows : List (String → Value)) own o, Hydrated shape (rows.map (st.row fl)) s own o →
    ∃ ρ ∈ rows, own.head? = some (st.row fl ρ) ∧ Fields.get? o name = some (ρ source)

theorem valueOf_eq_int {f : ShapeField} {r : Row} {i : Int64} (h : valueOf f [r] = .int i) :
    ∃ label isIdentity, f = .column label isIdentity ∧ r.get? label = some (.int i) := by
  cases f with
  | column label isIdentity =>
    refine ⟨label, isIdentity, rfl, ?_⟩
    have value : (r.get? label).getD .null = .int i := h
    cases hr : r.get? label with
    | none => rw [hr] at value; cases value
    | some v => rw [hr] at value; rw [← value]; rfl
  | nested s many =>
    rw [valueOf] at h
    split at h
    · cases h
    cases hv : values s [r] with
    | nil => rw [hv] at h; cases h
    | cons v vs =>
      obtain ⟨o, rfl⟩ := Shape.object_of_mem_values (hv ▸ List.mem_cons_self ..)
      rw [hv] at h
      cases h

theorem carry_rows (selected : shape.labels ⊆ st.outputs fl) (rows : List (String → Value)) :
    Carry (rows.map (st.row fl)) shape.labels := by
  intro r hr
  obtain ⟨ρ, _, rfl⟩ := List.mem_map.mp hr
  rw [Sql.Statement.columns_row]
  exact selected

/-- Only one source is zero. -/
def mark (source : String) (a : String) : Value := if a = source then .int 0 else .int 1

variable (coherent : (Node.table t children).Everywhere Table.Coherent)
variable (stated : Sql.statement fl (.table t children) scope = .ok st)
variable (selected : shape.labels ⊆ st.outputs fl)

include coherent stated

theorem keyed_mark (source : String) : (st.row fl (mark source)).Keyed := by
  intro a ha
  have cell := Sql.Statement.get?_row coherent stated (mark source) a
  rw [Row.get?_of_mem ha] at cell
  obtain ⟨b, _, value⟩ := Option.map_eq_some_iff.mp cell.symm
  rw [← value, mark]
  split <;> rfl

/-- The row that marks a source shows which label a field is read under that holds the mark. -/
theorem first_of_marked (read : Fields.get? (Fields.ofPairs (fieldsOf s.fields
      [st.row fl (mark source)])) name = some (mark source source)) :
    ∃ label, Shape.labelAt? s.fields name = some (some label) ∧
      Sql.firstSource? fl t children label = some source := by
  rw [Shape.get?_fieldsOf] at read
  obtain ⟨f, found, value⟩ := Option.map_eq_some_iff.mp read
  have zero : mark source source = .int 0 := if_pos rfl
  rw [zero] at value
  obtain ⟨label, isIdentity, rfl, cell⟩ := valueOf_eq_int value
  rw [Sql.Statement.get?_row coherent stated] at cell
  obtain ⟨b, first, value⟩ := Option.map_eq_some_iff.mp cell
  refine ⟨label, by rw [Shape.labelAt?, found]; rfl, ?_⟩
  rw [mark] at value
  split at value
  · rename_i same
    rw [first, same]
  · simp at value

/-- A field that is read under the label of a source holds what the source is in the first row. -/
theorem get?_of_first {label : String} (found : Shape.labelAt? s.fields name = some (some label))
    (first : Sql.firstSource? fl t children label = some source) (ρ : String → Value)
    (rest : List Row) :
    Fields.get? (Fields.ofPairs (fieldsOf s.fields (st.row fl ρ :: rest))) name =
      some (ρ source) := by
  obtain ⟨f, last, column⟩ := Option.map_eq_some_iff.mp found
  have cell := Sql.Statement.get?_row coherent stated ρ label
  rw [first, Row.get?] at cell
  rw [Shape.get?_fieldsOf, last]
  cases f with
  | nested s many => cases column
  | column a isIdentity =>
    cases column
    have value : (st.row fl ρ).value label = ρ source := by
      rw [Row.value, Fields.valueAt, cell]
      rfl
    simp [valueOf, value]

include selected

theorem first_of_reads (inhabited : ∀ r : Row, shape.labels ⊆ r.columns → r.Keyed →
      Hydrated shape [r] s [r] (Fields.ofPairs (fieldsOf s.fields [r])))
    (reads : Reads fl st shape s name source) :
    ∃ label, Shape.labelAt? s.fields name = some (some label) ∧
      Sql.firstSource? fl t children label = some source := by
  have carry := carry_rows selected [mark source]
  have hydrated := inhabited _ (carry _ (List.mem_cons_self ..)) (keyed_mark coherent stated source)
  obtain ⟨ρ, hρ, _, read⟩ := reads [mark source] _ _ hydrated
  rw [List.mem_singleton.mp hρ] at read
  exact first_of_marked coherent stated read

theorem reads_of_first {label : String} (found : Shape.labelAt? s.fields name = some (some label))
    (first : Sql.firstSource? fl t children label = some source) :
    Reads fl st shape s name source := by
  intro rows own o hydrated
  obtain ⟨part, _, full, rfl⟩ := hydrated.spec (carry_rows selected rows)
  obtain ⟨r, rest, rfl⟩ := List.exists_cons_of_ne_nil full
  obtain ⟨ρ, hρ, rfl⟩ := List.mem_map.mp (part (List.mem_cons_self ..))
  exact ⟨ρ, hρ, rfl, get?_of_first coherent stated found first ρ rest⟩

omit coherent stated selected

/-- Which column stands first under a name can be told from the plan. -/
theorem selectsFirst_iff {path : List String} {nodes : List Node}
    {fields : List (String × ShapeField)}
    (below : Shape.ofChildren (Sql.outputPath path) [] nodes = .ok fields) :
    (∃ label, Shape.labelAt? fields name = some (some label) ∧
      Sql.firstSource? fl t children label = some source) ↔
      Sql.SelectsFirst fl t children path nodes name source := by
  rw [Shape.labelAt?_ofChildren name below, Sql.SelectsFirst, Shape.labelAt?, last?, Option.map_none,
    Option.none_or]
  by_cases joined : name ∈ Node.joinedNames nodes
  · simp [joined]
  · rw [if_neg joined]
    cases Node.firstLabel? nodes name <;> simp [joined]

end Hydration

/-- A field of the objects of a table holds a source, whatever the rows of the statement hold, if and
only if the plan selects the source first under the field's name. -/
theorem Plan.Joined.reads_iff {t p : Table} {children nodes : List Node} {path : List String}
    (joined : Joined t children path p nodes)
    (coherent : (Node.table t children).Everywhere Table.Coherent)
    (apart : (Node.table t children).Everywhere Table.JoinsApart) {shape : Shape}
    (shaped : Shape.ofNode "" (.table t children) = .ok shape) {fl : Sql.Flavor}
    {scope : Option (List Value)} {st : Sql.Statement}
    (stated : Sql.statement fl (.table t children) scope = .ok st) : ∃ inner,
      Shape.ofNode (Sql.outputPath path) (.table p nodes) = .ok inner ∧ ∀ name source,
        Hydration.Reads fl st shape inner name source ↔
          Sql.SelectsFirst fl t children path nodes name source := by
  have selected := Shape.labels_subset_outputs coherent shaped stated
  obtain ⟨_, _, fields, below, identity, _, inhabited⟩ := joined.hydrated apart shaped
  refine ⟨.mk fields, Shape.ofNode_table_ok.mpr ⟨fields, below, identity, rfl⟩, ?_⟩
  intro name source
  rw [← Hydration.selectsFirst_iff below]
  constructor
  · exact Hydration.first_of_reads coherent stated selected inhabited
  · rintro ⟨label, found, first⟩
    exact Hydration.reads_of_first coherent stated selected found first

section Request

variable {Ctx : Type} {schema : Schema Ctx}

/-- Objects are handed to each other by the columns that the keys of a batch boundary name, whatever
the rows of a statement hold, if and only if the plan selects those columns first under the keys'
names: the key of the children among the nodes of the boundary, and the key of the parents among
the nodes of the table above it. -/
theorem batch_keys_read_iff {types : List (ObjectType Ctx)} {queryType : String}
    (built : Schema.build types queryType = .ok schema) {minify : Bool} {cx : Ctx} {x : Selection}
    (distinct : Selection.DistinctKeys schema schema.queryType [x]) {root : Node}
    (planned : schema.plan minify cx x = .ok root) {t : Table} {children : List Node}
    (member : (t, children) ∈ root.statementRoots) {shape : Shape}
    (shaped : Shape.ofNode "" (.table t children) = .ok shape) {fl : Sql.Flavor}
    {scope : Option (List Value)} {st : Sql.Statement}
    (stated : Sql.statement fl (.table t children) scope = .ok st) :
    (∀ rows : List (String → Value), ∃ items,
      Hydration.objects shape (rows.map (st.row fl)) = .ok items) ∧
    (∀ keys, t.batchKeys? = some keys →
      let source := Sql.qualified t.thisKeyLabel keys.thisKey.column
      (Hydration.Reads fl st shape shape keys.thisKey.fieldName source ↔
        Sql.SelectsFirst fl t children [t.label] children keys.thisKey.fieldName source)) ∧
    ∀ path p nodes, Plan.Joined t children path p nodes → ∃ inner,
      Shape.ofNode (Sql.outputPath path) (.table p nodes) = .ok inner ∧
      ∀ u below keys, .table u below ∈ nodes → u.batchKeys? = some keys →
        let source := Sql.qualified p.label keys.parentKey.column
        (Hydration.Reads fl st shape inner keys.parentKey.fieldName source ↔
          Sql.SelectsFirst fl t children path nodes keys.parentKey.fieldName source) := by
  have valid := Schema.valid_of_build built
  have coherent := Plan.Node.everywhere_statementRoot (Plan.plan_coherent valid planned) member
  have apart := Plan.Node.everywhere_statementRoot (Plan.plan_joinsApart distinct planned) member
  have selected := Shape.labels_subset_outputs coherent shaped stated
  refine ⟨fun rows => ?_, fun keys _ => ?_, fun path p nodes h => ?_⟩
  · exact ⟨_, Hydration.objects_eq shape (Hydration.carry_rows selected rows)⟩
  · obtain ⟨inner, same, own⟩ := Plan.Joined.own.reads_iff coherent apart shaped stated
    cases shaped.symm.trans same
    exact own _ _
  · obtain ⟨inner, nested, own⟩ := h.reads_iff coherent apart shaped stated
    exact ⟨inner, nested, fun u below keys _ _ => own _ _⟩

end Request

open Sql (qualified)

theorem batch_keys_read_shop : ∃ shape st,
    Shape.ofNode "" (.table productsTable (productNodes "name")) = .ok shape ∧
    Sql.statement .sqlite (.table productsTable (productNodes "name")) none = .ok st ∧
    Hydration.Reads .sqlite st shape shape "sku" (qualified "products" "sku") := by
  obtain ⟨shape, shaped⟩ : ∃ shape,
      Shape.ofNode "" (.table productsTable (productNodes "name")) = .ok shape := ⟨_, rfl⟩
  obtain ⟨st, stated⟩ : ∃ st,
      Sql.statement .sqlite (.table productsTable (productNodes "name")) none = .ok st := ⟨_, rfl⟩
  refine ⟨shape, st, shaped, stated, ?_⟩
  have distinct := distinctKeys_productsRequest none (by decide)
  obtain ⟨inner, same, reads⟩ := (batch_keys_read_iff build_shop distinct (plan_productsRequest none)
    (List.mem_cons_self ..) shaped stated).2.2 _ _ _ .own
  cases shaped.symm.trans same
  exact (reads variantsTable variantNodes _ (by simp [productNodes]) rfl).mpr (by decide)

/-- The name and the number of a product. -/
def deskRow (source : String) : Value :=
  if source = qualified "products" "name" then .text "Desk"
  else if source = qualified "products" "sku" then .text "D-1"
  else .int 1

/-- Names that are asked for as `sku` are taken for the numbers by which variants are found. -/
theorem batch_keys_shadowed_shop :
    Selection.DistinctKeys shop shop.queryType [productsRequest (some "sku")] ∧
    shop.plan false () (productsRequest (some "sku")) =
      .ok (.table productsTable (productNodes "sku")) ∧
    ∃ shape st, Shape.ofNode "" (.table productsTable (productNodes "sku")) = .ok shape ∧
      Sql.statement .sqlite (.table productsTable (productNodes "sku")) none = .ok st ∧
      ¬Hydration.Reads .sqlite st shape shape "sku" (qualified "products" "sku") := by
  refine ⟨distinctKeys_productsRequest _ (by decide), plan_productsRequest _, _, _, rfl, rfl, ?_⟩
  intro reads
  obtain ⟨ρ, hρ, _, read⟩ := reads [deskRow] _ [("id", .int 1), ("sku", .text "Desk")]
    (.own ⟨_, _, _, rfl, List.mem_singleton_self _, rfl, rfl⟩)
  obtain rfl := List.mem_singleton.mp hρ
  have swapped : Value.text "Desk" = .text "D-1" := Option.some.inj read
  simp at swapped

end TreeQuery
