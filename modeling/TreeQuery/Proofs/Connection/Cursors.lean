import TreeQuery.Proofs.Batch.Correlation
import TreeQuery.Proofs.Connection.Keyset

/-!
Whether the cursor of an edge holds the sort key of its own row. The key is read back from the
object by its names, so another column or a joined table can stand in its place there, and a page
that goes on from such a cursor repeats rows or leaves rows out.
-/

namespace TreeQuery

open Plan (KeysetPage Node Table)

namespace Connection

/-- Converting the tables that are joined to an object leaves its other fields as they are. -/
theorem convertChildren_get? {nodes : List Node} {o : Fields Value} {w : Value} {name : String}
    (untouched : name ∉ Node.joinedNames nodes)
    (converted : convertChildren nodes (.object o) = .ok w) :
    ∃ o', w = .object o' ∧ Fields.get? o' name = Fields.get? o name := by
  induction nodes generalizing o with
  | nil =>
    cases converted
    exact ⟨o, rfl, rfl⟩
  | cons n nodes inductionHypothesis =>
    match n with
    | .table t children =>
      rw [Node.joinedNames_table] at untouched
      unfold convertChildren at converted
      split at converted
      · rename_i batch
        rw [if_pos batch] at untouched
        exact inductionHypothesis untouched converted
      · rename_i joined
        rw [if_neg joined, List.mem_cons, not_or] at untouched
        simp only at converted
        split at converted
        · obtain ⟨w', _, later⟩ := bind_eq_ok.mp converted
          obtain ⟨o', made, kept⟩ := inductionHypothesis untouched.2 later
          refine ⟨o', made, kept.trans ?_⟩
          rw [Fields.get?_insert, if_neg (Ne.symm untouched.1)]
        · exact inductionHypothesis untouched.2 converted
    | .column _ | .composite _ | .noop _ _ => exact inductionHypothesis untouched converted

end Connection

namespace Hydration

/-- In every object of a shape that rows of a statement hydrate to, the cursor made from the object
holds under a name what a source is in the first of the object's rows. -/
def CursorReads (fl : Sql.Flavor) (st : Sql.Statement) (shape s : Shape) (key : SortKey)
    (name source : String) : Prop :=
  ∀ (rows : List (String → Value)) own o, Hydrated shape (rows.map (st.row fl)) s own o →
    ∃ ρ ∈ rows, own.head? = some (st.row fl ρ) ∧
      Fields.get? (Connection.keyFields key (.object o)) name = some (ρ source)

variable {fl : Sql.Flavor} {t : Table} {children : List Node} {st : Sql.Statement}
variable {scope : Option (List Value)} {shape s : Shape} {key : SortKey} {c : SortColumn}
variable {source : String}

theorem Reads.cursorReads (member : c ∈ key) (reads : Reads fl st shape s c.name source) :
    CursorReads fl st shape s key c.name source := by
  intro rows own o hydrated
  obtain ⟨ρ, hρ, first, read⟩ := reads rows own o hydrated
  refine ⟨ρ, hρ, first, ?_⟩
  rw [Connection.get?_keyFields member, Value.field?, Value.object?, Option.bind_some, read]
  rfl

/-- A missing field counts as null in a cursor, and so is not the mark of the marked row. -/
theorem CursorReads.first (coherent : (Node.table t children).Everywhere Table.Coherent)
    (stated : Sql.statement fl (.table t children) scope = .ok st)
    (selected : shape.labels ⊆ st.outputs fl)
    (inhabited : ∀ r : Row, shape.labels ⊆ r.columns → r.Keyed →
      Hydrated shape [r] s [r] (Fields.ofPairs (fieldsOf s.fields [r])))
    (member : c ∈ key) (reads : CursorReads fl st shape s key c.name source) :
    ∃ label, Shape.labelAt? s.fields c.name = some (some label) ∧
      Sql.firstSource? fl t children label = some source := by
  have carry := carry_rows selected [mark source]
  have hydrated := inhabited _ (carry _ (List.mem_cons_self ..)) (keyed_mark coherent stated source)
  obtain ⟨ρ, hρ, _, read⟩ := reads [mark source] _ _ hydrated
  rw [List.mem_singleton.mp hρ, Connection.get?_keyFields member] at read
  apply first_of_marked coherent stated
  have zero : mark source source = .int 0 := if_pos rfl
  rw [Value.field?, Value.object?, Option.bind_some, zero] at read
  rw [zero]
  cases found : Fields.get? (Fields.ofPairs (fieldsOf s.fields [st.row fl (mark source)]))
    c.name with
  | none =>
    rw [found] at read
    simp at read
  | some v =>
    rw [found] at read
    exact read

end Hydration

open Sql (qualified)

section Request

variable {Ctx : Type} {schema : Schema Ctx}

/-- The edges of every keyset page are made from the nodes of the page. Their cursors hold the sort
key of the nodes' own rows, whatever the rows of a statement hold, if and only if the plan selects
the key's columns first under the names that they have in cursors; making connections of the tables
below a node changes nothing about it then. -/
theorem edge_cursors_read_iff {types : List (ObjectType Ctx)} {queryType : String}
    (built : Schema.build types queryType = .ok schema) {minify : Bool} {cx : Ctx} {x : Selection}
    (distinct : Selection.DistinctKeys schema schema.queryType [x]) {root : Node}
    (planned : schema.plan minify cx x = .ok root) {t : Table} {children : List Node}
    (member : (t, children) ∈ root.statementRoots) {shape : Shape}
    (shaped : Shape.ofNode "" (.table t children) = .ok shape) {fl : Sql.Flavor}
    {scope : Option (List Value)} {st : Sql.Statement}
    (stated : Sql.statement fl (.table t children) scope = .ok st) {path : List String} {p : Table}
    {nodes : List Node} (joined : Plan.Joined t children path p nodes) {key : SortKey}
    {label : String} (keyed : p.keyset? = some (key, label)) : ∃ inner,
      Shape.ofNode (Sql.outputPath path) (.table p nodes) = .ok inner ∧
      (∀ items v, Connection.ofItems p items = .ok v → ∃ edges info,
        v = .connection edges info none ∧ ∀ e ∈ edges, e.2 ∈ items ∧
          e.1 = Cursor.ofFields (Connection.keyFields key e.2)) ∧
      ∀ c ∈ key,
        let source := qualified label c.column
        (Hydration.CursorReads fl st shape inner key c.name source ↔
          Sql.SelectsFirst fl t children path nodes c.name source) ∧
        (Sql.SelectsFirst fl t children path nodes c.name source → ∀ o w,
          Connection.convertChildren nodes (.object o) = .ok w →
            Fields.get? (Connection.keyFields key w) c.name =
              Fields.get? (Connection.keyFields key (.object o)) c.name) := by
  have valid := Schema.valid_of_build built
  have coherent := Plan.Node.everywhere_statementRoot (Plan.plan_coherent valid planned) member
  have apart := Plan.Node.everywhere_statementRoot (Plan.plan_joinsApart distinct planned) member
  have selected := Shape.labels_subset_outputs coherent shaped stated
  obtain ⟨_, _, fields, below, identity, _, inhabited⟩ := joined.hydrated apart shaped
  refine ⟨.mk fields, Shape.ofNode_table_ok.mpr ⟨fields, below, identity, rfl⟩,
    ?_, ?_⟩
  · intro items v paged
    obtain ⟨page, asked, rfl⟩ := (Connection.ofItems_keyset keyed).mp paged
    obtain ⟨rfl, _⟩ := Plan.Table.keysetPage_key asked
    refine ⟨_, _, rfl, ?_⟩
    intro e hedge
    obtain ⟨v, shown, rfl⟩ := List.mem_map.mp hedge
    exact ⟨Connection.shown_subset page items shown, rfl⟩
  intro c hc
  constructor
  · rw [← Hydration.selectsFirst_iff below]
    constructor
    · intro reads
      exact reads.first coherent stated selected inhabited hc
    · rintro ⟨label, found, first⟩
      have reads := Hydration.reads_of_first (s := .mk fields) coherent stated selected found first
      exact reads.cursorReads hc
  · rintro ⟨untouched, _⟩ o w converted
    obtain ⟨o', rfl, kept⟩ := Connection.convertChildren_get? untouched converted
    rw [Connection.get?_keyFields hc, Connection.get?_keyFields hc, Value.field?, Value.field?,
      Value.object?, Value.object?, Option.bind_some, Option.bind_some, kept]

end Request

section Tags

/-- Tags are linked to products by a table whose rows are numbered and have a position. -/
def productTags (c : SortColumn) : JunctionConfig Unit where
  table := .ident "product_tags"
  fromParent := some (fun _ _ =>
    [.mk .and false (.compareColumns ⟨.child, "product_id"⟩ .eq ⟨.parent, "id"⟩)])
  toChild := some (fun _ _ =>
    [.mk .and false (.compareColumns ⟨.child, "id"⟩ .eq ⟨.parent, "tag_id"⟩)])
  filter := none
  orderBy := none
  sortKey := some (fun _ _ => [c])
  batch := none

/-- Products, and pages of their tags by a column of the links. -/
def taggedTypes (c : SortColumn) : List (ObjectType Unit) :=
  [.ofFields "Query" none queryFields,
    .ofFields "Product" (some (tableOf "products" "id")) [plainField "id" .scalar,
      { plainField "tags" (.object "Tag" true) with
        junction := some (productTags c)
        paginate := true }],
    .ofFields "Tag" (some (tableOf "tags" "id")) [plainField "id" .scalar]]

def tagged (c : SortColumn) : Schema Unit := ⟨taggedTypes c, .ofFields "Query" none queryFields⟩

theorem build_tagged (c : SortColumn) : Schema.build (taggedTypes c) "Query" = .ok (tagged c) := by
  rfl

def tagsRequest : Selection :=
  ⟨"products", none, .empty, [⟨"tags", none, .empty,
    [⟨"edges", none, .empty, [⟨"node", none, .empty, [.leaf "id" none]⟩]⟩]⟩]⟩

def tagsTable (c : SortColumn) : Table := { productsTable with
  name := .ident "tags"
  label := "tags"
  fieldName := "tags"
  junction := some {
    table := .ident "product_tags"
    label := "product_tags"
    fromParent := some
      [.mk .and false (.compareColumns ⟨.child, "product_id"⟩ .eq ⟨.parent, "id"⟩)]
    toChild := some [.mk .and false (.compareColumns ⟨.child, "id"⟩ .eq ⟨.parent, "tag_id"⟩)]
    filter := []
    orderBy := none
    sortKey := some [c]
    batch := none }
  paginate := true
  location := ["Query", "products", "tags"] }

def tagNodes (c : SortColumn) : List Node :=
  [.column ⟨.name "id", "id", "id", true, none, (tagsTable c).location⟩,
    .column ⟨.name c.column, c.name, c.name, false, some "product_tags", (tagsTable c).location⟩,
    .column ⟨.name "id", "id", "id", false, none, (tagsTable c).location ++ ["id"]⟩]

def taggedNodes (c : SortColumn) : List Node :=
  [.column ⟨.name "id", "id", "id", true, none, productsTable.location⟩,
    .table (tagsTable c) (tagNodes c)]

theorem plan_tagsRequest (c : SortColumn) :
    (tagged c).plan false () tagsRequest = .ok (.table productsTable (taggedNodes c)) := by
  rfl

theorem distinctKeys_tagsRequest (c : SortColumn) :
    Selection.DistinctKeys (tagged c) (tagged c).queryType [tagsRequest] := by
  refine .intro (by simp) (fun x hx field typeName many childType found leads known => ?_)
  obtain rfl := List.mem_singleton.mp hx
  cases found
  cases leads
  cases known
  refine .intro (by decide) (fun x hx field typeName many childType found leads known => ?_)
  obtain rfl := List.mem_singleton.mp hx
  cases found
  cases leads
  cases known
  have nodes : ([Selection.leaf "id" none].map Selection.responseKey).Nodup := by decide
  refine .intro nodes (fun x hx field typeName many childType found leads known => ?_)
  obtain rfl := List.mem_singleton.mp hx
  cases found
  cases leads

theorem joined_tags (c : SortColumn) : Plan.Joined productsTable (taggedNodes c)
    ["products", "tags"] (tagsTable c) (tagNodes c) :=
  .joined (u := tagsTable c) .own (by simp [taggedNodes]) rfl

/-- The position of a link, under a name that nothing else has. -/
def byPosition : SortColumn := ⟨"position", "position", .ascending, .any⟩

theorem edge_cursors_read_tags : ∃ shape inner st,
    Shape.ofNode "" (.table productsTable (taggedNodes byPosition)) = .ok shape ∧
    Shape.ofNode "tags__" (.table (tagsTable byPosition) (tagNodes byPosition)) = .ok inner ∧
    Sql.statement .postgresql (.table productsTable (taggedNodes byPosition)) none = .ok st ∧
    Hydration.CursorReads .postgresql st shape inner [byPosition] "position"
      (qualified "product_tags" "position") := by
  obtain ⟨shape, shaped⟩ : ∃ shape,
      Shape.ofNode "" (.table productsTable (taggedNodes byPosition)) = .ok shape := ⟨_, rfl⟩
  obtain ⟨st, stated⟩ : ∃ st, Sql.statement .postgresql
      (.table productsTable (taggedNodes byPosition)) none = .ok st := ⟨_, rfl⟩
  obtain ⟨inner, nested, _, reads⟩ := edge_cursors_read_iff (build_tagged byPosition)
    (distinctKeys_tagsRequest byPosition) (plan_tagsRequest byPosition) (List.mem_cons_self ..)
    shaped stated (joined_tags byPosition) rfl
  refine ⟨shape, inner, st, shaped, nested, stated, ?_⟩
  exact (reads byPosition (List.mem_cons_self ..)).1.mpr (by decide)

/-- The number of a link. A tag has a number of its own. -/
def byNumber : SortColumn := ⟨"id", "id", .ascending, .any⟩

/-- A tag and its link to a product. -/
def tagRow (source : String) : Value :=
  if source = qualified "tags" "id" then .int 7
  else if source = qualified "product_tags" "id" then .int 41
  else .int 1

/-- Where links are ordered by number, the cursors hold the numbers of the tags. -/
theorem edge_cursors_shadowed_tags :
    (∃ types, Schema.build types "Query" = .ok (tagged byNumber)) ∧
    Selection.DistinctKeys (tagged byNumber) (tagged byNumber).queryType [tagsRequest] ∧
    (tagged byNumber).plan false () tagsRequest =
      .ok (.table productsTable (taggedNodes byNumber)) ∧
    ∃ shape inner st,
      Shape.ofNode "" (.table productsTable (taggedNodes byNumber)) = .ok shape ∧
      Shape.ofNode "tags__" (.table (tagsTable byNumber) (tagNodes byNumber)) = .ok inner ∧
      Sql.statement .postgresql (.table productsTable (taggedNodes byNumber)) none = .ok st ∧
      ¬Hydration.CursorReads .postgresql st shape inner [byNumber] "id"
        (qualified "product_tags" "id") := by
  refine ⟨⟨_, build_tagged byNumber⟩, distinctKeys_tagsRequest byNumber, plan_tagsRequest byNumber,
    _, _, _, rfl, rfl, rfl, ?_⟩
  intro reads
  obtain ⟨ρ, hρ, _, read⟩ := reads [tagRow] _ [("id", .int 7)] (.nested
    (o := [("id", .int 1), ("tags", .list [.object [("id", .int 7)]])])
    (.own ⟨_, _, _, rfl, List.mem_singleton_self _, rfl, rfl⟩)
    (List.mem_cons_of_mem _ (List.mem_singleton_self _))
    ⟨_, _, _, rfl, List.mem_singleton_self _, rfl, rfl⟩)
  obtain rfl := List.mem_singleton.mp hρ
  have swapped : Value.int 7 = .int 41 := Option.some.inj read
  simp at swapped

end Tags

end TreeQuery
