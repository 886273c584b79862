import TreeQuery.Proofs.Hydration.Links
import TreeQuery.Proofs.Sql.OuterJoins
import TreeQuery.Proofs.Sql.Outputs

/-!
What becomes of the rows that have nothing below them. Joined tables leave them in the result, where
they hydrate to objects without children; but the filters of joined tables are conditions of the
whole statement, so that a row is gone whose children satisfy none of them.
-/

namespace TreeQuery

open Plan (Node Table)

namespace Hydration

variable {s : Shape} {rows : List Row} {r : Row}

/-- A row that found a match stands for an object. -/
theorem exists_folds (carry : Carry rows s.labels) (member : r ∈ rows)
    (matched : isMatched (keyOf s.identity r)) : ∃ own o, Folds s rows own o ∧ r ∈ own := by
  obtain ⟨fields⟩ := s
  let own := rows.filter (fun r' => keyOf (Shape.identityOf fields) r' =
    keyOf (Shape.identityOf fields) r)
  have among : keyOf (Shape.identityOf fields) r ∈ matchedKeys (Shape.identityOf fields) rows :=
    List.mem_filter.mpr ⟨List.mem_map_of_mem member, matched⟩
  have group : (keyOf (Shape.identityOf fields) r, own) ∈
      groupsOf (Shape.identityOf fields) rows :=
    List.mem_map.mpr ⟨_, mem_distinct.mpr among, rfl⟩
  have part : Carry own (Shape.labelsIn fields) :=
    carry.mono (List.filter_subset_self rows) (List.Subset.refl _)
  refine ⟨own, _, ⟨_, _, _, groupRows_eq (carry.mono (List.Subset.refl _)
    (Shape.identityOf_subset fields)), group, objectFields_eq fields part, rfl⟩, ?_⟩
  exact List.mem_filter.mpr ⟨member, decide_eq_true rfl⟩

/-- Rows without a unique key have no object of a joined table. -/
theorem TellsBy.values_eq_nil_iff {key : String} (tells : TellsBy s key none) :
    values s rows = [] ↔ ∀ r ∈ rows, r.keyAt key = none := by
  rw [tells.joined, List.map_eq_nil_iff, List.eq_nil_iff_forall_not_mem]
  constructor
  · intro nothing r member
    by_contra found
    have kept : r ∈ rows.filter (fun r => (r.keyAt key).isSome) :=
      List.mem_filter.mpr ⟨member, Option.isSome_iff_ne_none.mpr found⟩
    exact nothing _ (mem_distinct.mpr (List.mem_map_of_mem kept))
  · intro unmatched k among
    obtain ⟨r, kept, _⟩ := List.mem_map.mp (mem_distinct.mp among)
    obtain ⟨member, found⟩ := List.mem_filter.mp kept
    rw [unmatched r member] at found
    cases found

theorem headD_values_eq_null_iff : (values s rows).headD .null = .null ↔ values s rows = [] := by
  cases found : values s rows with
  | nil => exact iff_of_true rfl rfl
  | cons v items =>
    obtain ⟨o, rfl⟩ := Shape.object_of_mem_values (found ▸ List.mem_cons_self ..)
    exact iff_of_false (fun null => by cases null) (List.cons_ne_nil _ _)

/-- A joined field is empty if and only if none of the object's rows has a unique key of the joined
table. -/
theorem joined_empty_iff {p u : Table} {children nodes : List Node} {path : String}
    (headed : Node.EverywhereIn Table.Headed children)
    (shaped : Shape.ofNode path (.table p children) = .ok s)
    (names : (Node.joinedNames children).Nodup) (member : .table u nodes ∈ children)
    (single : u.batchKeys? = none) :
    ∃ key, Node.uniqueLabel? nodes = some key ∧ ∀ own : List Row,
      Fields.get? (Fields.ofPairs (fieldsOf s.fields own)) u.fieldName =
          some (if u.many then .list [] else .null) ↔
        ∀ r ∈ own, r.keyAt (path ++ u.label ++ "__" ++ key) = none := by
  have batch : u.isBatch = false := by rw [u.isBatch_eq, single]; rfl
  have unlinked : u.linkLabel? nodes = none := by rw [Table.linkLabel?, single]; rfl
  obtain ⟨fields, made, _, rfl⟩ := Shape.ofNode_table_ok.mp shaped
  obtain ⟨inner, nested, found⟩ := (Shape.last?_ofChildren made names).2 u nodes member batch
  have below := Node.everywhereIn_iff.mp headed _ member
  obtain ⟨key, unique, tells⟩ := tellsBy_of_headed below.1 nested
  rw [unlinked] at tells
  refine ⟨key, unique, fun own => ?_⟩
  have field : Fields.get? (Fields.ofPairs (fieldsOf fields own)) u.fieldName =
      some (if u.many then .list (values inner own) else (values inner own).headD .null) := by
    rw [Shape.get?_fieldsOf, found]
    rfl
  rw [← tells.values_eq_nil_iff]
  refine (Eq.congr_left field).trans ((Option.some.injEq ..).to_iff.trans ?_)
  cases u.many with
  | true => exact (Value.list.injEq ..).to_iff
  | false => exact headD_values_eq_null_iff

/-- A row is part of an object, in which a joined field is empty if and only if none of the object's
rows has a unique key of the joined table. -/
structure PartOf (children : List Node) (key : String) (rows : List Row) (r : Row)
    (own : List Row) (o : Fields Value) : Prop where
  member : r ∈ own
  part : own ⊆ rows
  key : ∀ r' ∈ own, r'.keyAt key = r.keyAt key
  joined : (Node.joinedNames children).Nodup → ∀ u nodes, .table u nodes ∈ children →
    u.batchKeys? = none → ∃ below, Node.uniqueLabel? nodes = some below ∧
      (Fields.get? o u.fieldName = some (if u.many then .list [] else .null) ↔
        ∀ r' ∈ own, r'.keyAt (u.label ++ "__" ++ below) = none)

/-- A row with a unique key has an object. -/
theorem exists_partOf {t : Table} {children : List Node}
    (headed : (Node.table t children).Everywhere Table.Headed)
    (shaped : Shape.ofNode "" (.table t children) = .ok s) :
    ∃ key, Node.uniqueLabel? children = some key ∧ ∀ {rows : List Row}, Carry rows s.labels →
      ∃ items, objects s rows = .ok items ∧ ∀ r ∈ rows, (r.keyAt key).isSome →
        ∃ own o, .object o ∈ items ∧ PartOf children key rows r own o := by
  obtain ⟨key, unique, tells⟩ := tellsBy_of_headed headed.1 shaped
  rw [String.empty_append] at tells
  refine ⟨key, unique, fun {rows} carry => ⟨_, objects_eq s carry, fun r member found => ?_⟩⟩
  obtain ⟨own, o, folds, among⟩ := exists_folds carry member (tells.isMatched_iff.mpr (.inl found))
  obtain ⟨part, _, rfl⟩ := folds.spec carry
  obtain ⟨k, same, _⟩ := tells.own folds
  refine ⟨own, _, (mem_objects (objects_eq s carry)).mpr ⟨own, _, rfl, folds⟩, among, part, ?_, ?_⟩
  · exact fun r' member' => (same r' member').trans (same r among).symm
  · intro names u nodes joined single
    obtain ⟨below, unique, empty⟩ := joined_empty_iff headed.2 shaped names joined single
    rw [String.empty_append] at empty
    exact ⟨below, unique, empty own⟩

end Hydration

section Request

variable {Ctx : Type} {types : List (ObjectType Ctx)} {queryType : String} {schema : Schema Ctx}
variable {minify : Bool} {cx : Ctx} {x : Selection} {root : Node}

/-- Every row that a planned statement starts from goes on below, whether or not anything matches
it there. If it satisfies the conditions on its own table, it is in the result if and only if it
goes on to rows that satisfy the filters of all joined tables at once, which are conditions of the
statement; without such filters it always is. In the result it is part of an object if it has a
unique key, and what is joined to the object is empty if none of its rows has anything there. -/
theorem parents_kept_iff (built : Schema.build types queryType = .ok schema)
    (planned : schema.plan minify cx x = .ok root) {t : Table} {children : List Node}
    (starts : (t, children) ∈ root.statementRoots) {fl : Sql.Flavor} {scope : Option (List Value)}
    {st : Sql.Statement} (stated : Sql.statement fl (.table t children) scope = .ok st) :
    (∃ source own below joined, Sql.Split t children scope st source own below joined ∧
      (below = [] ↔ ∀ u ∈ Node.joinedTables children, Sql.plainFilters u = []) ∧
      ∀ {ρ : Type} (db : Sql.Database ρ), ∀ c ∈ db.combinations source.tables [],
        (∃ c' ∈ db.combinations st.part.tables [], c <+: c') ∧
        ((∀ c' ∈ db.combinations st.part.tables [], c <+: c' →
            ∀ f ∈ own ++ source.conditions, db.holds f c') →
          ((∃ c' ∈ db.selects st, c <+: c') ↔ ∃ c' ∈ db.combinations st.part.tables [],
            c <+: c' ∧ ∀ f ∈ below, db.holds f c'))) ∧
    ∃ s key, Shape.ofNode "" (.table t children) = .ok s ∧ Node.uniqueLabel? children = some key ∧
      ∀ {ρ : Type} (db : Sql.Database ρ), ∃ items,
        Hydration.objects s (db.result fl st) = .ok items ∧
        ∀ r ∈ db.result fl st, (r.keyAt key).isSome → ∃ own o, .object o ∈ items ∧
          Hydration.PartOf children key (db.result fl st) r own o := by
  have coherent := Node.everywhere_statementRoot
    (Plan.plan_coherent (Schema.valid_of_build built) planned) starts
  have headed := Node.everywhere_statementRoot (Plan.plan_headed planned) starts
  constructor
  · obtain ⟨source, own, below, joined, split⟩ := Sql.statement_split fl coherent stated
    exact ⟨source, own, below, joined, split, split.below_eq_nil_iff, fun db c member =>
      ⟨split.exists_combination db member, split.returns_iff db⟩⟩
  · obtain ⟨s, shaped⟩ := Plan.shaped_of_headed (.table t children) headed rfl ""
    obtain ⟨key, unique, shown⟩ := Hydration.exists_partOf headed shaped
    have selected := Shape.labels_subset_outputs coherent shaped stated
    refine ⟨s, key, shaped, unique, fun db => shown ?_⟩
    have carry := Hydration.carry_rows selected ((db.selects st).map (fun c => (db.cell · c)))
    rwa [List.map_map] at carry

end Request

section Warehouse

open Sql (Combination Database)

/-- The key in a column of the row under a label, none if no row has been found there. -/
def keyUnder (c : Combination Row) (label column : String) : Option Key :=
  (Fields.get? c label).join.bind (fun r => r.keyAt column)

/-- Comparisons are true of keys that are the same. -/
def comparisonHolds (f : Sql.Fragment) (c : Combination Row) : Bool :=
  match f with
  | [.column label column, .sql _, .column label' column'] =>
    (keyUnder c label column).isSome && keyUnder c label column = keyUnder c label' column'
  | [.column label column, .sql _, .param _ v] =>
    (keyUnder c label column).isSome && keyUnder c label column = v.key?
  | _ => false

/-- What a qualified column selects, null if no row has been found for its table. -/
def selectedCell (source : String) (c : Combination Row) : Value :=
  (c.findSome? (fun (label, r) => r.bind (fun r =>
    Fields.get? (r.cells.map (fun (column, v) => (Sql.qualified label column, v))) source))).getD
    .null

def product (id : Int64) (name : String) : Row := ⟨[("id", .int id), ("name", .text name)]⟩

def variant (id productId : Int64) (inStock : Bool) : Row :=
  ⟨[("id", .int id), ("productId", .int productId), ("inStock", .bool inStock)]⟩

/-- Of the products, the chair has no variant, and the only one of the lamp is out of stock. -/
def warehouse : Database Row where
  rows
    | .ident "products" => [product 1 "Desk", product 2 "Lamp", product 3 "Chair"]
    | .ident "variants" => [variant 10 1 true, variant 20 2 false]
    | _ => []
  pageRows _ _ := []
  keyRows _ _ := []
  holds := comparisonHolds
  cell := selectedCell

def storeRow (id : Int64) (name : String) (variantId : Value) : Row :=
  ⟨[("id", .int id), ("name", .text name), ("variants__id", variantId)]⟩

/-- The chair is found without variants. -/
theorem parents_kept_iff_chair : ∃ s st,
    Shape.ofNode "" (.table productsTable (storeNodes "name")) = .ok s ∧
    Sql.statement .sqlite (.table productsTable (storeNodes "name")) none = .ok st ∧
    (∃ c ∈ warehouse.selects st, [("products", some (product 3 "Chair"))] <+: c) ∧
    ∃ items o, Hydration.objects s (warehouse.result .sqlite st) = .ok items ∧
      .object o ∈ items ∧ Fields.get? o "variants" = some (.list []) := by
  obtain ⟨st, stated, result⟩ : ∃ st,
      Sql.statement .sqlite (.table productsTable (storeNodes "name")) none = .ok st ∧
      warehouse.result .sqlite st = [storeRow 1 "Desk" (.int 10), storeRow 2 "Lamp" (.int 20),
        storeRow 3 "Chair" .null] := ⟨_, rfl, by rfl⟩
  obtain ⟨⟨source, own, below, joined, split, filtered, kept⟩, s, key, shaped, unique, shown⟩ :=
    parents_kept_iff build_store (plan_store none) (List.mem_cons_self ..) stated
  refine ⟨s, st, shaped, stated, ?_, ?_⟩
  · obtain rfl : own = [] := List.forall₂_nil_left_iff.mp split.filters
    obtain rfl : below = [] := filtered.mpr (List.forall_mem_singleton.mpr rfl)
    cases split.reached with
    | root _ _ _ =>
      have chair : product 3 "Chair" ∈ warehouse.rows productsTable.name :=
        List.mem_of_getLast? rfl
      obtain ⟨⟨c, member, goesOn⟩, returned⟩ := kept warehouse [("products", some _)]
        (List.mem_flatMap.mpr ⟨_, List.mem_map_of_mem chair, List.mem_singleton_self _⟩)
      exact (returned (by simp [Sql.tablesOnly, Sql.Part.empty])).mpr ⟨c, member, goesOn, by simp⟩
    | rootPage _ _ taken => cases taken.paginate
  · cases unique
    obtain ⟨items, hydrated, found⟩ := shown warehouse
    rw [result] at hydrated found
    obtain ⟨own, o, member, shows⟩ := found (storeRow 3 "Chair" .null) (by simp) rfl
    obtain ⟨key, unique, empty⟩ := shows.joined (by decide) joinedVariants joinedVariantNodes
      (by simp [storeNodes]) rfl
    cases unique
    refine ⟨items, o, result ▸ hydrated, member, empty.mpr (fun r among => ?_)⟩
    have same := shows.key r among
    rcases List.mem_cons.mp (shows.part among) with rfl | later
    · cases same
    rcases List.mem_cons.mp later with rfl | later
    · cases same
    obtain rfl := List.mem_singleton.mp later
    rfl

/-- The same products, with those of their variants that are in stock. -/
def stockedTypes : List (ObjectType Unit) :=
  [.ofFields "Query" none queryFields,
    .ofFields "Product" (some (tableOf "products" "id")) [plainField "id" .scalar,
      plainField "name" .scalar,
      { plainField "variants" (.object "Variant" true) with
        join := some (fun _ _ => ofProduct)
        filter := some (fun _ _ => [Sql.ofThis "inStock" .eq (.bool true)]) }],
    .ofFields "Variant" (some (tableOf "variants" "id")) [plainField "id" .scalar]]

def stocked : Schema Unit := ⟨stockedTypes, .ofFields "Query" none queryFields⟩

def stockedVariants : Table := { joinedVariants with
  filter := [Sql.ofThis "inStock" .eq (.bool true)] }

def stockedNodes : List Node :=
  [.column ⟨.name "id", "id", "id", true, none, productsTable.location⟩,
    .column ⟨.name "name", "name", "name", false, none, productsTable.location ++ ["name"]⟩,
    .table stockedVariants joinedVariantNodes]

/-- Products without a filter of their own are gone if none of their variants is in stock. -/
theorem filtered_join_loses_parents : Schema.build stockedTypes "Query" = .ok stocked ∧
    stocked.plan false () (productsRequest none) = .ok (.table productsTable stockedNodes) ∧
    Sql.plainFilters productsTable = [] ∧
    ∃ st, Sql.statement .sqlite (.table productsTable stockedNodes) none = .ok st ∧
      product 2 "Lamp" ∈ warehouse.rows productsTable.name ∧
      warehouse.selects st = [[("products", some (product 1 "Desk")),
        ("variants", some (variant 10 1 true))]] := by
  refine ⟨by rfl, by rfl, by rfl, _, rfl, ?_, by rfl⟩
  exact List.mem_cons_of_mem _ (List.mem_cons_self ..)

end Warehouse

end TreeQuery
