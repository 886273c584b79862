import TreeQuery.Proofs.Plan.Entries
import TreeQuery.Proofs.Plan.Requested
import TreeQuery.Proofs.Sql.Outputs

/-!
Whether a scalar that is asked for holds its own column. It does if and only if the plan selects
that column first under the scalar's key, and so wherever no other column of the table has the key
for a name and no label is mistaken for the way to another table.
-/

namespace TreeQuery

open Plan (Node Table Joined)

namespace Sql

variable (fl : Flavor) (p : Table)

theorem ownEntry?_eq (n : Node) :
    n.ownEntry? = (ownColumn? fl p n).map (fun c => (c.fieldName, c.label)) := by
  cases n with
  | table u below => rw [Node.ownEntry?, ownColumn?, Option.map_map]; rfl
  | column _ | composite _ | noop _ _ => rfl

theorem ownEntries_eq (nodes : List Node) :
    Node.ownEntries nodes = (ownColumns fl p nodes).map (fun c => (c.fieldName, c.label)) := by
  rw [Node.ownEntries, ownColumns, List.map_filterMap]
  exact List.filterMap_congr (fun n _ => ownEntry?_eq fl p n)

theorem labelFor?_eq (name : String) (n : Node) : n.labelFor? name =
    (ownColumn? fl p n).bind (fun c => if c.fieldName = name then some c.label else none) := by
  cases n with
  | table u below => rw [Node.labelFor?, ownColumn?, Option.bind_map]; rfl
  | column _ | composite _ | noop _ _ => rfl

variable {fl : Flavor} {t p : Table} {children nodes : List Node} {path : List String}

/-- The first label under a name is that of a column with the name, if there is one. -/
theorem firstLabel?_ownColumns {name : String}
    (fetched : ∃ c ∈ ownColumns fl p nodes, c.fieldName = name) :
    ∃ c ∈ ownColumns fl p nodes, c.fieldName = name ∧
      Node.firstLabel? nodes name = some c.label := by
  obtain ⟨c, own, named⟩ := fetched
  obtain ⟨n, member, found⟩ := mem_ownColumns.mp own
  have some : (Node.firstLabel? nodes name).isSome := by
    rw [Node.firstLabel?, List.findSome?_isSome_iff]
    exact ⟨n, member, by rw [labelFor?_eq fl p, found]; simp [named]⟩
  obtain ⟨label, first⟩ := Option.isSome_iff_exists.mp some
  obtain ⟨m, member, labelled⟩ := List.exists_of_findSome?_eq_some first
  rw [labelFor?_eq fl p] at labelled
  obtain ⟨d, found, same⟩ := Option.bind_eq_some_iff.mp labelled
  split at same
  · rename_i named
    cases same
    exact ⟨d, mem_ownColumns.mpr ⟨m, member, found⟩, named, first⟩
  · cases same

/-- A column is selected first under its name if no other column of the table has the name. -/
theorem Separated.selectsFirst (h : Separated fl t children)
    (distinct : (Node.table t children).tableLabels.Nodup)
    (here : Joined t children path p nodes) (fields : Plan.FieldOfLabel p nodes)
    {name source : String} (free : name ∉ Node.joinedNames nodes)
    (fetched : ∃ c ∈ ownColumns fl p nodes, c.fieldName = name)
    (alone : ∀ c ∈ ownColumns fl p nodes, c.fieldName = name → c.source.text fl = source) :
    SelectsFirst fl t children path nodes name source := by
  obtain ⟨c, own, named, first⟩ := firstLabel?_ownColumns fetched
  obtain ⟨d, other, label, read⟩ := h.firstSource? distinct here own
  have entry {c : OwnColumn} (hc : c ∈ ownColumns fl p nodes) :
      (c.fieldName, c.label) ∈ Node.ownEntries nodes := by
    rw [ownEntries_eq fl p]
    exact List.mem_map_of_mem hc
  have field : d.fieldName = name := (fields _ (entry other) _ (entry own) label).trans named
  refine ⟨free, ?_⟩
  rw [first, Option.bind_some]
  exact read.trans (congrArg some (alone d other field))

end Sql

/-- The text of a source that is read from a table. -/
def Plan.ColumnSource.text (label : String) : ColumnSource → String
  | .name column => Sql.qualified label column
  | .expression sql => sql

theorem Sql.text_columnSource {fl : Flavor} {p : Table} {c : Plan.Column}
    (own : c.fromTable = none) : (columnSource p c).text fl = c.source.text p.label := by
  rw [columnSource, own]
  cases c.source <;> simp [Fragment.text, Token.text, Plan.ColumnSource.text]

section Request

variable {Ctx : Type} {schema : Schema Ctx}

/-- The objects of a table hold under the key of a scalar what its field is declared to be, whatever
the rows of a statement hold, if and only if the plan selects that first under the key. The column is
always fetched, unless it is one of introspection, which is not planned. So it is read if no other
column of the table has the key for a name, and if labels are short or without separators. -/
theorem requested_scalars_read_iff {types : List (ObjectType Ctx)} {queryType : String}
    (built : Schema.build types queryType = .ok schema) {minify : Bool} {cx : Ctx} {x : Selection}
    (distinct : Selection.DistinctKeys schema schema.queryType [x]) {root : Node}
    (planned : schema.plan minify cx x = .ok root) {t : Table} {children : List Node}
    (member : (t, children) ∈ root.statementRoots) {shape : Shape}
    (shaped : Shape.ofNode "" (.table t children) = .ok shape) {fl : Sql.Flavor}
    {scope : Option (List Value)} {st : Sql.Statement}
    (stated : Sql.statement fl (.table t children) scope = .ok st) {path : List String} {p : Table}
    {nodes : List Node} (joined : Joined t children path p nodes) :
    (∃ type xs, Plan.Requested schema x root p nodes type xs) ∧ ∃ inner,
      Shape.ofNode (Sql.outputPath path) (.table p nodes) = .ok inner ∧
      ∀ type xs, Plan.Requested schema x root p nodes type xs → ∃ config,
        type.table = some config ∧ ∀ y ∈ xs, ∀ field, type.field? y.name = some field →
          field.type = .scalar → field.ignored = false →
          let source := (Plan.scalarSource cx config p field y.arguments).text p.label
          (Hydration.Reads fl st shape inner y.responseKey source ↔
            Sql.SelectsFirst fl t children path nodes y.responseKey source) ∧
          (Plan.isIntrospection y.name = false →
            (∃ c ∈ Sql.ownColumns fl p nodes,
              c.fieldName = y.responseKey ∧ c.source.text fl = source) ∧
            (minify = true ∨ Sql.Separated fl t children →
              (∀ c ∈ Sql.ownColumns fl p nodes,
                c.fieldName = y.responseKey → c.source.text fl = source) →
              Hydration.Reads fl st shape inner y.responseKey source)) := by
  have valid := Schema.valid_of_build built
  have coherent := Node.everywhere_statementRoot (Plan.plan_coherent valid planned) member
  have apart := Node.everywhere_statementRoot (Plan.plan_joinsApart distinct planned) member
  have fields := Node.everywhere_statementRoot (Plan.plan_fieldOfLabel planned) member
  have requested := Node.everywhere_statementRoot (Plan.plan_requested distinct planned) member
  have labels := (List.nodup_append.mp (Plan.plan_tableLabels planned)).2.1.sublist
    (Node.tableLabels_statementRoot member)
  obtain ⟨inner, nested, reads⟩ := joined.reads_iff coherent apart shaped stated
  refine ⟨(joined.everywhere requested).1, inner, nested, fun type xs asked => ?_⟩
  obtain ⟨config, host⟩ := asked.plannedFor distinct planned
  refine ⟨config, host.configured, fun y hy field found scalar kept => ⟨reads _ _, fun plain => ?_⟩⟩
  obtain ⟨c, fetched, named, own, source⟩ := host.scalar hy found scalar kept plain
  have column : ⟨c.fieldName, c.label, Sql.columnSource p c⟩ ∈ Sql.ownColumns fl p nodes :=
    Sql.mem_ownColumns.mpr ⟨_, fetched, rfl⟩
  have text : (Sql.columnSource p c).text fl =
      (Plan.scalarSource cx config p field y.arguments).text p.label := by
    rw [Sql.text_columnSource own, source]
  refine ⟨⟨_, column, named, text⟩, fun names alone => (reads _ _).mpr ?_⟩
  have separated : Sql.Separated fl t children := by
    rcases names with rfl | separated
    · exact Sql.separated_of_short planned member
    · exact separated
  exact separated.selectsFirst labels joined (joined.everywhere fields).1
    (host.not_joined hy found scalar) ⟨_, column, named⟩ alone

end Request

open Sql (qualified)

/-- The numbers of variants are asked for within the products. -/
theorem requested_variants : ∃ type, type.field? "id" = some (plainField "id" .scalar) ∧
    type.table = some (tableOf "variants" "id") ∧
    Plan.Requested store (productsRequest none) (.table productsTable (storeNodes "name"))
      joinedVariants joinedVariantNodes type [.leaf "id" none] := by
  have products : Plan.Requested store (productsRequest none)
      (.table productsTable (storeNodes "name")) productsTable (storeNodes "name") _ _ :=
    .root rfl rfl rfl rfl
  exact ⟨_, rfl, rfl, .under products (List.mem_cons_of_mem _ (List.mem_singleton_self _))
    (.tail _ (.tail _ (.head _))) rfl rfl rfl rfl⟩

theorem requested_scalars_read_store : ∃ shape inner st,
    Shape.ofNode "" (.table productsTable (storeNodes "name")) = .ok shape ∧
    Shape.ofNode "variants__" (.table joinedVariants joinedVariantNodes) = .ok inner ∧
    Sql.statement .sqlite (.table productsTable (storeNodes "name")) none = .ok st ∧
    Hydration.Reads .sqlite st shape inner "id" (qualified "variants" "id") := by
  obtain ⟨shape, shaped⟩ : ∃ shape,
      Shape.ofNode "" (.table productsTable (storeNodes "name")) = .ok shape := ⟨_, rfl⟩
  obtain ⟨st, stated⟩ : ∃ st,
      Sql.statement .sqlite (.table productsTable (storeNodes "name")) none = .ok st := ⟨_, rfl⟩
  obtain ⟨_, inner, nested, scalars⟩ := requested_scalars_read_iff build_store
    (distinctKeys_store none (by decide)) (plan_store none) (List.mem_cons_self ..) shaped stated
    (joined_variants "name")
  obtain ⟨type, found, table, asked⟩ := requested_variants
  obtain ⟨config, configured, reads⟩ := scalars type _ asked
  cases table.symm.trans configured
  obtain ⟨_, alone⟩ := reads _ (List.mem_singleton_self _) _ found rfl rfl
  refine ⟨shape, inner, st, shaped, nested, stated, ?_⟩
  exact (alone (by decide)).2 (.inr separated_store) (by decide)

/-- Names of products under `id` are taken for the numbers of the products. -/
theorem requested_scalar_shadowed_shop :
    Schema.build shopTypes "Query" = .ok shop ∧
    Selection.DistinctKeys shop shop.queryType [productsRequest (some "id")] ∧
    shop.plan false () (productsRequest (some "id")) =
      .ok (.table productsTable (productNodes "id")) ∧
    (∃ type xs, Plan.Requested shop (productsRequest (some "id"))
        (.table productsTable (productNodes "id")) productsTable (productNodes "id") type xs ∧
      .leaf "name" (some "id") ∈ xs ∧ type.field? "name" = some (plainField "name" .scalar)) ∧
    ∃ shape st, Shape.ofNode "" (.table productsTable (productNodes "id")) = .ok shape ∧
      Sql.statement .sqlite (.table productsTable (productNodes "id")) none = .ok st ∧
      ¬Hydration.Reads .sqlite st shape shape "id" (qualified "products" "name") := by
  refine ⟨build_shop, distinctKeys_productsRequest _ (by decide), plan_productsRequest _,
    ⟨_, _, .root rfl rfl rfl rfl, List.mem_cons_self .., rfl⟩, _, _, rfl, rfl, ?_⟩
  intro reads
  obtain ⟨ρ, hρ, _, read⟩ := reads [deskRow] _ [("id", .int 1), ("sku", .text "D-1")]
    (.own ⟨_, _, _, rfl, List.mem_singleton_self _, rfl, rfl⟩)
  obtain rfl := List.mem_singleton.mp hρ
  have swapped : Value.int 1 = .text "Desk" := Option.some.inj read
  simp at swapped

end TreeQuery
