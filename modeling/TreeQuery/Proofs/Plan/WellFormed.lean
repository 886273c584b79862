import TreeQuery.Proofs.Fields
import TreeQuery.Proofs.Plan.Planned

/-!
What the plans of a validated schema have in common: every table is reached in at most one way,
and a page is of many. If the selections on each object differ in their keys, no two tables are
joined into one field.
-/

namespace TreeQuery

section Schema

variable {Ctx : Type} {s : Schema Ctx}

/-- A field that leads to objects leads there in at most one way, and to many if it is paginated. -/
structure Field.Coherent (f : Field Ctx) : Prop where
  related : f.type ≠ .scalar → f.relationCount ≤ 1
  paged : ∀ name many, f.type = .object name many → f.paginate → many

theorem Field.coherent_of_validate {typeName : String} {types : List String} {f : Field Ctx}
    (h : f.validate typeName types = .ok ()) : f.Coherent := by
  unfold Field.validate at h
  split at h
  · rename_i leaf
    exact ⟨fun scalar => (scalar leaf).elim, fun _ _ object => by rw [leaf] at object; cases object⟩
  · rename_i referred list leads
    split at h
    · cases h
    split at h
    · cases h
    split at h
    · cases h
    rename_i _ related paged
    refine ⟨fun _ => Nat.le_of_not_lt related, ?_⟩
    intro name many object paginate
    rw [leads] at object
    obtain ⟨_, rfl⟩ := FieldType.object.inj object
    simpa [paginate] using paged

/-- The types passed validation. -/
def Schema.Valid (s : Schema Ctx) : Prop :=
  s.queryType ∈ s.types ∧ ∀ t ∈ s.types, ∀ name f, t.field? name = some f → f.Coherent

theorem ObjectType.fields_of_validate {types : List String} {t : ObjectType Ctx}
    (h : t.validate types = .ok ()) {name : String} {f : Field Ctx}
    (found : t.field? name = some f) : f.validate t.name types = .ok () := by
  unfold ObjectType.validate at h
  split at h
  · cases h
  · exact forM_eq_ok h _ (Fields.mem_of_get? found)

theorem Schema.valid_of_build {types : List (ObjectType Ctx)} {queryType : String}
    (h : Schema.build types queryType = .ok s) : s.Valid := by
  obtain ⟨_, _, h⟩ := bind_eq_ok.mp h
  split at h
  · cases h
  rename_i q found
  obtain ⟨_, valid, h⟩ := bind_eq_ok.mp h
  cases h
  refine ⟨List.mem_of_find?_eq_some found, ?_⟩
  intro t ht name f hf
  exact Field.coherent_of_validate (ObjectType.fields_of_validate (forM_eq_ok valid t ht) hf)

theorem Schema.mem_types {name : String} {t : ObjectType Ctx} (h : s.type? name = some t) :
    t ∈ s.types := List.mem_of_find?_eq_some h

end Schema

namespace Plan

/-- How many of join, batch and junction a table is reached by. -/
def Table.relationCount (t : Table) : Nat :=
  t.join.isSome.toNat + t.batch.isSome.toNat + t.junction.isSome.toNat

theorem Table.relationCount_le_one {t : Table} : t.relationCount ≤ 1 ↔
    (t.join.isSome → t.batch = none ∧ t.junction = none) ∧
      (t.junction.isSome → t.batch = none) := by
  rw [Table.relationCount]
  rcases t.join with _ | _ <;> rcases t.batch with _ | _ <;> rcases t.junction with _ | _ <;> simp

namespace Node

mutual

/-- A property of every table of a plan and the nodes below it. -/
def Everywhere (p : Table → List Node → Prop) : Node → Prop
  | .table t children => p t children ∧ EverywhereIn p children
  | _ => True

def EverywhereIn (p : Table → List Node → Prop) : List Node → Prop
  | [] => True
  | n :: r => Everywhere p n ∧ EverywhereIn p r

end

variable {p : Table → List Node → Prop}

theorem everywhereIn_iff {nodes : List Node} :
    EverywhereIn p nodes ↔ ∀ n ∈ nodes, n.Everywhere p := by
  induction nodes with
  | nil => simp [EverywhereIn]
  | cons n nodes ih => simp [EverywhereIn, ih]

theorem everywhereIn_append {a b : List Node} :
    EverywhereIn p (a ++ b) ↔ EverywhereIn p a ∧ EverywhereIn p b := by
  simp only [everywhereIn_iff, List.forall_mem_append]

theorem everywhereIn_of_leaves {nodes : List Node} (h : Leaves nodes) : EverywhereIn p nodes := by
  rw [everywhereIn_iff]
  intro n hn
  cases n with
  | table t children => exact absurd (h _ hn) (by simp [table?])
  | column c => trivial
  | composite c => trivial
  | noop name l => trivial

/-- The fields of the tables that are joined into their parent's statement. -/
def joinedNames (nodes : List Node) : List String :=
  nodes.filterMap (fun n => n.table?.bind (fun t => if t.isBatch then none else some t.fieldName))

theorem joinedNames_table (t : Table) (children r : List Node) :
    joinedNames (.table t children :: r) =
      if t.isBatch then joinedNames r else t.fieldName :: joinedNames r := by
  rw [joinedNames, List.filterMap_cons]
  by_cases h : t.isBatch <;> simp [table?, h, joinedNames]

/-- The tables among some nodes. -/
def tables (nodes : List Node) : List Table := nodes.filterMap table?

theorem mem_tables {nodes : List Node} {t : Table} {children : List Node}
    (member : .table t children ∈ nodes) : t ∈ tables nodes :=
  List.mem_filterMap.mpr ⟨_, member, rfl⟩

theorem tables_append (a b : List Node) : tables (a ++ b) = tables a ++ tables b :=
  List.filterMap_append

theorem tables_of_leaves {nodes : List Node} (h : Leaves nodes) : tables nodes = [] :=
  List.filterMap_eq_nil_iff.mpr h

theorem joinedNames_eq (nodes : List Node) : joinedNames nodes =
    (tables nodes).filterMap (fun t => if t.isBatch then none else some t.fieldName) := by
  rw [joinedNames, tables, List.filterMap_filterMap]

theorem mem_joinedNames {nodes : List Node} {t : Table} {children : List Node}
    (member : .table t children ∈ nodes) (single : t.isBatch = false) :
    t.fieldName ∈ joinedNames nodes := by
  rw [joinedNames_eq]
  exact List.mem_filterMap.mpr ⟨t, mem_tables member, by simp [single]⟩

theorem joinedNames_sublist (nodes : List Node) :
    (joinedNames nodes).Sublist ((tables nodes).map Table.fieldName) := by
  rw [joinedNames_eq]
  induction tables nodes with
  | nil => exact List.Sublist.refl _
  | cons t ts inductionHypothesis =>
    rw [List.filterMap_cons, List.map_cons]
    by_cases batch : t.isBatch
    · rw [if_pos batch]
      exact inductionHypothesis.cons _
    · rw [if_neg batch]
      exact inductionHypothesis.cons_cons _

mutual

theorem everywhere_mono {q : Table → List Node → Prop}
    (weaker : ∀ t children, p t children → q t children) :
    (n : Node) → n.Everywhere p → n.Everywhere q
  | .table t children, h => ⟨weaker t children h.1, everywhereIn_mono weaker children h.2⟩
  | .column _, _ | .composite _, _ | .noop _ _, _ => trivial

theorem everywhereIn_mono {q : Table → List Node → Prop}
    (weaker : ∀ t children, p t children → q t children) :
    (nodes : List Node) → EverywhereIn p nodes → EverywhereIn q nodes
  | [], _ => trivial
  | n :: r, h => ⟨everywhere_mono weaker n h.1, everywhereIn_mono weaker r h.2⟩

end

mutual

theorem everywhere_and {q : Table → List Node → Prop} : (n : Node) → n.Everywhere p →
    n.Everywhere q → n.Everywhere (fun t children => p t children ∧ q t children)
  | .table _ children, h, h' => ⟨⟨h.1, h'.1⟩, everywhereIn_and children h.2 h'.2⟩
  | .column _, _, _ | .composite _, _, _ | .noop _ _, _, _ => trivial

theorem everywhereIn_and {q : Table → List Node → Prop} : (nodes : List Node) →
    EverywhereIn p nodes → EverywhereIn q nodes →
    EverywhereIn (fun t children => p t children ∧ q t children) nodes
  | [], _, _ => trivial
  | n :: r, h, h' => ⟨everywhere_and n h.1 h'.1, everywhereIn_and r h.2 h'.2⟩

end

end Node

/-- A table is reached in at most one way, and a page is of many. -/
structure Table.Coherent (t : Table) (_children : List Node) : Prop where
  related : t.relationCount ≤ 1
  paged : t.paginate → t.many

/-- No two tables are joined into one field. -/
def Table.JoinsApart (_t : Table) (children : List Node) : Prop :=
  (Node.joinedNames children).Nodup

/-- No two tables have one field, whether they are joined into it or are batches. -/
def Table.TablesApart (_t : Table) (children : List Node) : Prop :=
  ((Node.tables children).map Table.fieldName).Nodup

/-- No table is joined into the field of a batch. -/
theorem Table.TablesApart.batch_apart {t u : Table} {children : List Node}
    (apart : t.TablesApart children) (member : u ∈ Node.tables children) (batch : u.isBatch) :
    u.fieldName ∉ Node.joinedNames children := by
  rw [Node.joinedNames_eq, List.mem_filterMap]
  rintro ⟨w, among, name⟩
  split at name
  · cases name
  · rename_i single
    have same : w = u := List.inj_on_of_nodup_map apart among member (Option.some.inj name)
    exact single (same ▸ batch)

theorem Table.TablesApart.joinsApart {t : Table} {children : List Node}
    (apart : t.TablesApart children) : t.JoinsApart children :=
  (Node.joinedNames_sublist children).nodup apart

variable {Ctx : Type} {s : Schema Ctx}

theorem Table.OfField.coherent {field : Field Ctx} {typeName key : String} {many : Bool} {t : Table}
    (h : t.OfField field many key) (valid : field.Coherent)
    (leads : field.type = .object typeName many) (children : List Node) :
    t.Coherent children where
  related := by
    rw [Table.relationCount, h.join, h.batch, h.junction]
    exact valid.related (by rw [leads]; nofun)
  paged := by
    rw [h.paginate, h.many]
    exact valid.paged _ _ leads

theorem Planned.coherent (valid : s.Valid) {type : ObjectType Ctx} {xs : List Selection}
    {nodes : List Node} (h : Planned s type xs nodes) (known : type ∈ s.types) :
    Node.EverywhereIn Table.Coherent nodes := by
  induction h with
  | nil => trivial
  | leaves leaves _ later =>
    exact Node.everywhereIn_append.mpr ⟨Node.everywhereIn_of_leaves leaves, later known⟩
  | table found leads childKnown related reached own selected _ below later =>
    have field := valid.2 _ known _ _ found
    exact ⟨⟨reached.coherent field leads _, Node.everywhereIn_append.mpr
      ⟨Node.everywhereIn_of_leaves own, below (Schema.mem_types childKnown)⟩⟩, later known⟩

end Plan

/-- On each object that some selections lead to, their keys differ. -/
inductive Selection.DistinctKeys {Ctx : Type} (s : Schema Ctx) :
    ObjectType Ctx → List Selection → Prop
  | intro {type : ObjectType Ctx} {xs : List Selection}
      (keys : (xs.map Selection.responseKey).Nodup)
      (below : ∀ x ∈ xs, ∀ field typeName many childType, type.field? x.name = some field →
        field.type = .object typeName many → s.type? typeName = some childType →
        DistinctKeys s childType (x.onObjects field.paginate)) :
      DistinctKeys s type xs

namespace Selection.DistinctKeys

variable {Ctx : Type} {s : Schema Ctx} {type : ObjectType Ctx} {x : Selection} {xs : List Selection}

theorem nodup (h : DistinctKeys s type xs) : (xs.map responseKey).Nodup := by
  cases h
  assumption

theorem tail (h : DistinctKeys s type (x :: xs)) : DistinctKeys s type xs := by
  cases h with
  | intro keys below =>
    exact .intro (List.nodup_cons.mp keys).2 (fun y hy => below y (List.mem_cons_of_mem _ hy))

theorem of_mem (h : DistinctKeys s type xs) (member : x ∈ xs)
    {field : Field Ctx} {typeName : String} {many : Bool} {childType : ObjectType Ctx}
    (found : type.field? x.name = some field) (leads : field.type = .object typeName many)
    (known : s.type? typeName = some childType) :
    DistinctKeys s childType (x.onObjects field.paginate) := by
  cases h with
  | intro keys below => exact below x member field typeName many childType found leads known

theorem onObjects (h : DistinctKeys s type (x :: xs)) {field : Field Ctx} {typeName : String}
    {many : Bool} {childType : ObjectType Ctx} (found : type.field? x.name = some field)
    (leads : field.type = .object typeName many) (known : s.type? typeName = some childType) :
    DistinctKeys s childType (x.onObjects field.paginate) :=
  h.of_mem (List.mem_cons_self ..) found leads known

end Selection.DistinctKeys

namespace Plan

variable {Ctx : Type} {s : Schema Ctx}

theorem Planned.tableNames_sublist {type : ObjectType Ctx} {xs : List Selection}
    {nodes : List Node} (h : Planned s type xs nodes) :
    ((Node.tables nodes).map Table.fieldName).Sublist (xs.map Selection.responseKey) := by
  induction h with
  | nil => exact List.Sublist.refl _
  | leaves leaves _ later =>
    rw [Node.tables_append, Node.tables_of_leaves leaves]
    exact later.cons _
  | table _ _ _ _ reached _ _ _ _ later =>
    rw [List.map_cons, ← reached.fieldName]
    exact later.cons_cons _

/-- What a table's own columns and the selections on its objects are planned as. -/
theorem Planned.table_tablesApart {type : ObjectType Ctx} {xs : List Selection}
    {head below : List Node} (own : Leaves head) (h : Planned s type xs below)
    (distinct : Selection.DistinctKeys s type xs) (t : Table) : t.TablesApart (head ++ below) := by
  rw [Table.TablesApart, Node.tables_append, Node.tables_of_leaves own, List.nil_append]
  exact h.tableNames_sublist.nodup distinct.nodup

theorem Planned.tablesApart {type : ObjectType Ctx} {xs : List Selection} {nodes : List Node}
    (h : Planned s type xs nodes) (distinct : Selection.DistinctKeys s type xs) :
    Node.EverywhereIn Table.TablesApart nodes := by
  induction h with
  | nil => trivial
  | leaves leaves _ later =>
    exact Node.everywhereIn_append.mpr
      ⟨Node.everywhereIn_of_leaves leaves, later distinct.tail⟩
  | table found leads childKnown related reached own selected _ below later =>
    have onObjects := distinct.onObjects found leads childKnown
    exact ⟨⟨selected.table_tablesApart own onObjects _, Node.everywhereIn_append.mpr
      ⟨Node.everywhereIn_of_leaves own, below onObjects⟩⟩, later distinct.tail⟩

theorem plan_ok {minify : Bool} {cx : Ctx} {x : Selection} {root : Node}
    (h : s.plan minify cx x = .ok root) :
    ∃ ns', (planRoot s cx x).run (Namespace.start minify) = .ok (root, ns') := by
  obtain ⟨⟨_, ns'⟩, ran, rfl⟩ := map_eq_ok.mp h
  exact ⟨ns', ran⟩

theorem plan_coherent {minify : Bool} {cx : Ctx} {x : Selection} {root : Node} (valid : s.Valid)
    (h : s.plan minify cx x = .ok root) : root.Everywhere Table.Coherent := by
  obtain ⟨_, ran⟩ := plan_ok h
  rcases planRoot_ok ran with leaf | ⟨field, typeName, many, childType, t, head, below, found, leads,
    known, reached, own, selected, rfl⟩
  · exact (Node.everywhereIn_of_leaves (leaves_cons leaf leaves_nil)).1
  · have field := valid.2 _ valid.1 _ _ found
    exact ⟨reached.coherent field leads _, Node.everywhereIn_append.mpr
      ⟨Node.everywhereIn_of_leaves own, selected.coherent valid (Schema.mem_types known)⟩⟩

theorem plan_tablesApart {minify : Bool} {cx : Ctx} {x : Selection} {root : Node}
    (distinct : Selection.DistinctKeys s s.queryType [x]) (h : s.plan minify cx x = .ok root) :
    root.Everywhere Table.TablesApart := by
  obtain ⟨_, ran⟩ := plan_ok h
  rcases planRoot_ok ran with leaf | ⟨field, typeName, many, childType, t, head, below, found, leads,
    known, reached, own, selected, rfl⟩
  · exact (Node.everywhereIn_of_leaves (leaves_cons leaf leaves_nil)).1
  · have onObjects := distinct.onObjects found leads known
    exact ⟨selected.table_tablesApart own onObjects t, Node.everywhereIn_append.mpr
      ⟨Node.everywhereIn_of_leaves own, selected.tablesApart onObjects⟩⟩

theorem plan_joinsApart {minify : Bool} {cx : Ctx} {x : Selection} {root : Node}
    (distinct : Selection.DistinctKeys s s.queryType [x]) (h : s.plan minify cx x = .ok root) :
    root.Everywhere Table.JoinsApart :=
  Node.everywhere_mono (fun _ _ apart => apart.joinsApart) root (plan_tablesApart distinct h)

end Plan

section Shop

open Plan (Node Table)

def plainField (name : String) (type : FieldType) : Field Unit where
  name
  type
  column := none
  expression := none
  ignored := false
  dependencies := []
  join := none
  batch := none
  junction := none
  filter := none
  orderBy := none
  sortKey := none
  paginate := false

def tableOf (name key : String) : TableConfig Unit := ⟨.static (.ident name), [key], [], none⟩

def queryFields : List (Field Unit) := [plainField "products" (.object "Product" true)]

/-- Products, and in batches their variants by the products' numbers. -/
def shopTypes : List (ObjectType Unit) :=
  [.ofFields "Query" none queryFields,
    .ofFields "Product" (some (tableOf "products" "id")) [plainField "id" .scalar,
      plainField "name" .scalar,
      { plainField "variants" (.object "Variant" true) with batch := some ⟨"productSku", "sku"⟩ }],
    .ofFields "Variant" (some (tableOf "variants" "id")) [plainField "id" .scalar]]

def shop : Schema Unit := ⟨shopTypes, .ofFields "Query" none queryFields⟩

theorem build_shop : Schema.build shopTypes "Query" = .ok shop := by rfl

def Selection.leaf (name : String) (label : Option String) : Selection := ⟨name, label, .empty, []⟩

/-- The variants of all products, and the products' names under a key of choice. -/
def productsRequest (label : Option String) : Selection :=
  ⟨"products", none, .empty, [.leaf "name" label, ⟨"variants", none, .empty, [.leaf "id" none]⟩]⟩

def productsTable : Table where
  name := .ident "products"
  label := "products"
  fieldName := "products"
  arguments := .empty
  join := none
  junction := none
  batch := none
  filter := []
  orderBy := none
  sortKey := none
  paginate := false
  many := true
  location := ["Query", "products"]

def variantsTable : Table := { productsTable with
  name := .ident "variants"
  label := "variants"
  fieldName := "variants"
  batch := some ⟨⟨"productSku", "productSku", "productSku"⟩, ⟨"sku", "sku", "sku"⟩⟩
  location := ["Query", "products", "variants"] }

def variantNodes : List Node :=
  [.column ⟨.name "id", "id", "id", true, none, variantsTable.location⟩,
    .column ⟨.name "productSku", "productSku", "productSku", true, none, variantsTable.location⟩,
    .column ⟨.name "id", "id", "id", false, none, variantsTable.location ++ ["id"]⟩]

def productNodes (key : String) : List Node :=
  [.column ⟨.name "id", "id", "id", true, none, productsTable.location⟩,
    .column ⟨.name "name", key, key, false, none, productsTable.location ++ [key]⟩,
    .table variantsTable variantNodes]

theorem plan_productsRequest (label : Option String) :
    shop.plan false () (productsRequest label) =
      .ok (.table productsTable (productNodes (label.getD "name"))) := by rfl

/-- The keys differ in any schema that has the products and variants of the shop. -/
theorem distinctKeys_product {s : Schema Unit} {type : ObjectType Unit}
    (product : shop.type? "Product" = some type)
    (variants : s.type? "Variant" = shop.type? "Variant") (label : Option String)
    (h : label.getD "name" ≠ "variants") :
    Selection.DistinctKeys s type (productsRequest label).selections := by
  have keys : [label.getD "name", "variants"].Nodup := by simpa using h
  cases product
  refine .intro keys (fun x hx field typeName many childType found leads known => ?_)
  rcases List.mem_cons.mp hx with rfl | hx
  · cases found
    cases leads
  obtain rfl := List.mem_singleton.mp hx
  cases found
  cases leads
  rw [variants] at known
  cases known
  refine .intro (by decide) (fun x hx field typeName many childType found leads known => ?_)
  obtain rfl := List.mem_singleton.mp hx
  cases found
  cases leads

theorem distinctKeys_productsRequest (label : Option String) (h : label.getD "name" ≠ "variants") :
    Selection.DistinctKeys shop shop.queryType [productsRequest label] := by
  refine .intro (by simp) (fun x hx field typeName many childType found leads known => ?_)
  obtain rfl := List.mem_singleton.mp hx
  cases found
  cases leads
  exact distinctKeys_product known rfl label h

end Shop

end TreeQuery
