import TreeQuery.Proofs.Batch.Correlation
import TreeQuery.Proofs.Plan.Labels
import TreeQuery.Proofs.Sql.NestedNames

/-!
The names under which a statement selects the columns of its tables. Short labels keep those of
different tables apart, and so do all labels without a separator in them. Otherwise a label of a
request's choice can take the name of a column below a joined table.
-/

namespace TreeQuery

open Plan (Node Table Joined)

namespace Plan

/-- Each table of a statement has a property that all tables of the plan have. -/
theorem Joined.everywhere {P : Table → List Node → Prop} {t p : Table} {children nodes : List Node}
    {path : List String} (h : Joined t children path p nodes)
    (all : (Node.table t children).Everywhere P) : (Node.table p nodes).Everywhere P := by
  induction h with
  | own => exact all
  | joined _ member _ inductionHypothesis =>
    exact Node.everywhereIn_iff.mp inductionHypothesis.2 _ member

theorem Joined.path_ne_nil {t p : Table} {children nodes : List Node} {path : List String}
    (h : Joined t children path p nodes) : path ≠ [] := by
  cases h <;> simp

/-- Each way starts at the statement's own table. -/
theorem Joined.path_cons {t p : Table} {children nodes : List Node} {path : List String}
    (h : Joined t children path p nodes) : path = t.label :: path.tail := by
  induction h with
  | own => rfl
  | joined _ _ _ inductionHypothesis => rw [inductionHypothesis]; rfl

/-- The labels on the way are those of tables of the statement. -/
theorem Joined.on_path {t p : Table} {children nodes : List Node} {path : List String}
    (h : Joined t children path p nodes) :
    ∀ l ∈ path, ∃ path' q nodes', Joined t children path' q nodes' ∧ q.label = l := by
  induction h with
  | own => exact fun l hl => ⟨_, _, _, .own, (List.mem_singleton.mp hl).symm⟩
  | joined above member single inductionHypothesis =>
    refine List.forall_mem_append.mpr ⟨inductionHypothesis, fun l hl => ?_⟩
    exact ⟨_, _, _, .joined above member single, (List.mem_singleton.mp hl).symm⟩

/-- A path leads to one table. -/
theorem Joined.unique {t p q : Table} {children nodes nodes' : List Node} {path : List String}
    (distinct : (Node.table t children).Everywhere
      (fun _ nodes => (Node.tableLabelsIn nodes).Nodup))
    (first : Joined t children path p nodes) (second : Joined t children path q nodes') :
    p = q ∧ nodes = nodes' := by
  induction first generalizing q nodes' with
  | own =>
    generalize start : [t.label] = path at second
    cases second with
    | own => exact ⟨rfl, rfl⟩
    | joined above =>
      have short := congrArg List.length start
      have full := List.length_pos_of_ne_nil above.path_ne_nil
      simp only [List.length_singleton, List.length_append] at short
      omega
  | @joined path p u nodes below above member single inductionHypothesis =>
    generalize ended : path ++ [u.label] = path' at second
    cases second with
    | own =>
      have short := congrArg List.length ended
      have full := List.length_pos_of_ne_nil above.path_ne_nil
      simp only [List.length_singleton, List.length_append] at short
      omega
    | joined above' member' =>
      obtain ⟨rfl, label⟩ := List.append_inj' ended rfl
      obtain ⟨rfl, rfl⟩ := inductionHypothesis above'
      have here := (above.everywhere distinct).1
      exact Node.eq_of_label here member member' (List.cons.inj label).1

end Plan

namespace Sql

/-- A column that a node adds to the objects of the table above it. -/
structure OwnColumn where
  fieldName : String
  label : String
  source : Fragment

/-- As the statement of a table selects it. -/
def OwnColumn.item (c : OwnColumn) (path : List String) : SelectItem :=
  ⟨c.source, outputPath path ++ c.label⟩

/-- A batch boundary adds the key that its children are matched by. -/
def ownColumn? (fl : Flavor) (p : Table) : Node → Option OwnColumn
  | .column c => some ⟨c.fieldName, c.label, columnSource p c⟩
  | .composite c => some ⟨c.fieldName, c.label, compositeSource fl p c.columns⟩
  | .table u _ => u.batchKeys?.map (fun keys =>
      ⟨keys.parentKey.fieldName, keys.parentKey.label, [.column p.label keys.parentKey.column]⟩)
  | .noop _ _ => none

def ownColumns (fl : Flavor) (p : Table) (nodes : List Node) : List OwnColumn :=
  nodes.filterMap (ownColumn? fl p)

variable {fl : Flavor} {t p : Table} {children nodes : List Node} {path : List String}
variable {i : SelectItem}

theorem mem_ownColumns {c : OwnColumn} :
    c ∈ ownColumns fl p nodes ↔ ∃ n ∈ nodes, ownColumn? fl p n = some c := List.mem_filterMap

/-- A node adds a column to its table, or else it is a joined table with columns of its own. -/
theorem mem_nodeItems {n : Node} : i ∈ nodeItems fl p path n ↔
    (∃ c, ownColumn? fl p n = some c ∧ i = c.item path) ∨ ∃ u below, n = .table u below ∧
      u.batchKeys? = none ∧ i ∈ childItems fl u (path ++ [u.label]) below := by
  cases n with
  | table u below =>
    rw [nodeItems, ownColumn?]
    cases hk : u.batchKeys? with
    | some keys => simp [parentKey, OwnColumn.item, hk]
    | none => simp [hk]
  | column c => simp [nodeItems, ownColumn?, selectOnly, OwnColumn.item]
  | composite c => simp [nodeItems, ownColumn?, selectOnly, OwnColumn.item]
  | noop _ _ => simp [nodeItems, ownColumn?]

theorem mem_childItems : i ∈ childItems fl p path nodes ↔ ∃ n ∈ nodes, i ∈ nodeItems fl p path n := by
  induction nodes with
  | nil => simp [childItems]
  | cons n nodes inductionHypothesis =>
    rw [childItems, List.mem_append, inductionHypothesis, List.exists_mem_cons_iff]

theorem childItems_subset (h : Joined t children path p nodes) :
    childItems fl p path nodes ⊆ childItems fl t [t.label] children := by
  induction h with
  | own => exact List.Subset.refl _
  | @joined path p u nodes below _ member single inductionHypothesis =>
    intro i hi
    have here : i ∈ nodeItems fl p path (.table u below) :=
      mem_nodeItems.mpr (.inr ⟨u, below, rfl, single, hi⟩)
    exact inductionHypothesis (mem_childItems.mpr ⟨_, member, here⟩)

mutual

theorem selected_node : (n : Node) → {path : List String} → {p : Table} → {nodes : List Node} →
    Joined t children path p nodes → n ∈ nodes → i ∈ nodeItems fl p path n →
    ∃ path' q nodes', Joined t children path' q nodes' ∧
      ∃ c ∈ ownColumns fl q nodes', i = c.item path'
  | .table u below, path, p, nodes, h, member, hi => by
    rcases mem_nodeItems.mp hi with ⟨c, own, rfl⟩ | ⟨_, _, same, single, hi⟩
    · exact ⟨_, _, _, h, c, mem_ownColumns.mpr ⟨_, member, own⟩, rfl⟩
    · cases same
      exact selected_nodes below (h.joined member single) (List.Subset.refl _) hi
  | .column _, path, p, nodes, h, member, hi | .composite _, path, p, nodes, h, member, hi
  | .noop _ _, path, p, nodes, h, member, hi => by
    rcases mem_nodeItems.mp hi with ⟨c, own, rfl⟩ | ⟨_, _, same, _⟩
    · exact ⟨_, _, _, h, c, mem_ownColumns.mpr ⟨_, member, own⟩, rfl⟩
    · cases same

theorem selected_nodes : (ns : List Node) → {path : List String} → {p : Table} →
    {nodes : List Node} → Joined t children path p nodes → ns ⊆ nodes →
    i ∈ childItems fl p path ns → ∃ path' q nodes', Joined t children path' q nodes' ∧
      ∃ c ∈ ownColumns fl q nodes', i = c.item path'
  | [], _, _, _, _, _, hi => (List.not_mem_nil hi).elim
  | n :: ns, path, p, nodes, h, within, hi => by
    obtain ⟨here, later⟩ := List.cons_subset.mp within
    rw [childItems] at hi
    rcases List.mem_append.mp hi with hi | hi
    · exact selected_node n h here hi
    · exact selected_nodes ns h later hi

end

/-- A statement selects the columns of the tables that are joined in it, each under the labels on
the way to its table. -/
theorem selected_iff : i ∈ childItems fl t [t.label] children ↔ ∃ path p nodes,
    Joined t children path p nodes ∧ ∃ c ∈ ownColumns fl p nodes, i = c.item path := by
  refine ⟨selected_nodes children .own (List.Subset.refl _), ?_⟩
  rintro ⟨path, p, nodes, h, c, own, rfl⟩
  obtain ⟨n, member, found⟩ := mem_ownColumns.mp own
  exact childItems_subset h (mem_childItems.mpr ⟨n, member, mem_nodeItems.mpr (.inl ⟨c, found, rfl⟩)⟩)

/-- The separator is found neither in the label of a column nor in the name up to a table. -/
def Separated (fl : Flavor) (t : Table) (children : List Node) : Prop :=
  ∀ path p nodes, Joined t children path p nodes →
    (∀ l ∈ path.tail, ¬separator <:+: (l ++ "_").toList) ∧
    ∀ c ∈ ownColumns fl p nodes, ¬separator <:+: c.label.toList

theorem output_eq_iff {q : Table} {path' : List String} {nodes' : List Node}
    (first : Joined t children path p nodes) (second : Joined t children path' q nodes')
    (apart : path ≠ path') (c d : OwnColumn) : (c.item path).output = (d.item path').output ↔
      SpelledAlike path.tail c.label path'.tail d.label ∨
        SpelledAlike path'.tail d.label path.tail c.label := by
  have tails : path.tail ≠ path'.tail := by
    intro same
    rw [first.path_cons, second.path_cons, same] at apart
    exact apart rfl
  rw [OwnColumn.item, OwnColumn.item, outputPath_append, outputPath_append, nestedName_eq_iff tails]

theorem Separated.output_ne (h : Separated fl t children) {q : Table} {path' : List String}
    {nodes' : List Node} (first : Joined t children path p nodes)
    (second : Joined t children path' q nodes') (apart : path ≠ path') {c d : OwnColumn}
    (own : c ∈ ownColumns fl p nodes) (other : d ∈ ownColumns fl q nodes') :
    (c.item path).output ≠ (d.item path').output := by
  obtain ⟨tables, columns⟩ := h _ _ _ first
  obtain ⟨tables', columns'⟩ := h _ _ _ second
  rw [Ne, output_eq_iff first second apart, not_or]
  exact ⟨SpelledAlike.not_of_separated tables' (columns c own),
    SpelledAlike.not_of_separated tables (columns' d other)⟩

/-- What is read under the name of a column is a column of the same table and label. -/
theorem Separated.firstSource? (h : Separated fl t children)
    (distinct : (Node.table t children).tableLabels.Nodup)
    (here : Joined t children path p nodes) {c : OwnColumn} (own : c ∈ ownColumns fl p nodes) :
    ∃ d ∈ ownColumns fl p nodes, d.label = c.label ∧
      firstSource? fl t children (c.item path).output = some (d.source.text fl) := by
  have selected : c.item path ∈ childItems fl t [t.label] children :=
    selected_iff.mpr ⟨_, _, _, here, c, own, rfl⟩
  obtain ⟨i, found⟩ : ∃ i, (childItems fl t [t.label] children).find?
      (fun i => i.output = (c.item path).output) = some i :=
    Option.isSome_iff_exists.mp (List.find?_isSome.mpr ⟨_, selected, by simp⟩)
  have named : i.output = (c.item path).output := by simpa using List.find?_some found
  obtain ⟨path', q, nodes', there, d, other, rfl⟩ :=
    selected_iff.mp (List.mem_of_find?_eq_some found)
  have same : path' = path := by
    by_contra apart
    exact h.output_ne there here apart other own named
  subst same
  obtain ⟨rfl, rfl⟩ := here.unique (Node.everywhere_distinct _ distinct) there
  refine ⟨d, other, String.append_right_inj _ |>.mp named, ?_⟩
  rw [Sql.firstSource?, found]
  rfl

theorem ownColumn_label_mem {c : OwnColumn} (own : c ∈ ownColumns fl p nodes) :
    c.label ∈ Node.labels (.table p nodes) := by
  obtain ⟨n, member, found⟩ := mem_ownColumns.mp own
  cases n with
  | table u below =>
    obtain ⟨keys, batch, rfl⟩ := Option.map_eq_some_iff.mp found
    rw [Node.labels]
    exact List.mem_append_right _
      (Node.labels_subset_labelsIn member (Node.parentKey_mem u below batch))
  | column b =>
    cases found
    exact Node.entry_mem member rfl
  | composite b =>
    cases found
    exact Node.entry_mem member rfl
  | noop _ _ => cases found

/-- Labels that are spelled without an underscore are separated. -/
theorem separated_of_unbroken (unbroken : ∀ l ∈ Node.labels (.table t children), '_' ∉ l.toList) :
    Separated fl t children := by
  have all := Node.everywhere_labels (Node.table t children) (List.Subset.refl _)
  intro path p nodes h
  refine ⟨fun l hl within => ?_, fun c own within => ?_⟩
  · obtain ⟨path', q, nodes', there, rfl⟩ := h.on_path l (List.mem_of_mem_tail hl)
    have plain := unbroken _ ((there.everywhere all).1 (Node.ownLabel_mem q nodes'))
    have often := within.sublist.count_le '_'
    rw [String.toList_append, List.count_append, List.count_eq_zero.mpr plain] at often
    exact absurd often (by decide)
  · have plain := unbroken _ ((h.everywhere all).1 (ownColumn_label_mem own))
    have often := within.sublist.count_le '_'
    rw [List.count_eq_zero.mpr plain] at often
    exact absurd often (by decide)

variable {Ctx : Type} {schema : Schema Ctx} {cx : Ctx} {x : Selection} {root : Node}

theorem separated_of_short (planned : schema.plan true cx x = .ok root)
    (member : (t, children) ∈ root.statementRoots) : Separated fl t children := by
  have all := Node.everywhere_labels root (List.Subset.refl _)
  have within := (Node.everywhere_statementRoot all member).1
  exact separated_of_unbroken (fun l hl => Plan.plan_labels_unbroken planned l (within hl))

/-- A statement selects the columns of its tables under names that tell the tables apart, except
where the labels of one read like the way to the other. They never do if labels are short, and
neither do labels without a separator. A row then has under the name of a column what a column of the
same table and label holds. -/
theorem statement_outputs {types : List (ObjectType Ctx)} {queryType : String}
    (built : Schema.build types queryType = .ok schema) {minify : Bool}
    (planned : schema.plan minify cx x = .ok root) (member : (t, children) ∈ root.statementRoots)
    {scope : Option (List Value)} {st : Statement}
    (stated : statement fl (.table t children) scope = .ok st) :
    (∀ i, i ∈ st.part.items ↔ ∃ path p nodes,
      Joined t children path p nodes ∧ ∃ c ∈ ownColumns fl p nodes, i = c.item path) ∧
    (∀ path p nodes path' q nodes',
      Joined t children path p nodes → Joined t children path' q nodes' →
      (path = path' → p = q ∧ nodes = nodes') ∧
      (path ≠ path' → ∀ c d : OwnColumn, (c.item path).output = (d.item path').output ↔
        SpelledAlike path.tail c.label path'.tail d.label ∨
          SpelledAlike path'.tail d.label path.tail c.label)) ∧
    (minify = true → Separated fl t children) ∧
    (Separated fl t children → ∀ path p nodes, Joined t children path p nodes →
      ∀ c ∈ ownColumns fl p nodes,
        (∀ path' q nodes', Joined t children path' q nodes' → path ≠ path' →
          ∀ d ∈ ownColumns fl q nodes', (c.item path).output ≠ (d.item path').output) ∧
        ∃ d ∈ ownColumns fl p nodes, d.label = c.label ∧
          ∀ ρ, (st.row fl ρ).get? (c.item path).output = some (ρ (d.source.text fl))) := by
  have coherent := Node.everywhere_statementRoot
    (Plan.plan_coherent (Schema.valid_of_build built) planned) member
  have distinct := (List.nodup_append.mp (Plan.plan_tableLabels planned)).2.1.sublist
    (Node.tableLabels_statementRoot member)
  refine ⟨fun i => ?_, fun path p nodes path' q nodes' first second => ⟨?_, ?_⟩, ?_, ?_⟩
  · rw [statement_items coherent stated]
    exact selected_iff
  · rintro rfl
    exact first.unique (Node.everywhere_distinct _ distinct) second
  · exact fun apart c d => output_eq_iff first second apart c d
  · rintro rfl
    exact separated_of_short planned member
  · intro separated path p nodes here c own
    obtain ⟨d, found, label, first⟩ := separated.firstSource? distinct here own
    refine ⟨fun path' q nodes' there apart d other => ?_, d, found, label, fun ρ => ?_⟩
    · exact separated.output_ne here there apart own other
    · rw [Statement.get?_row coherent stated, first]
      rfl

end Sql

section Store

open Sql (ownColumns qualified)

/-- Variants belong to a product. -/
def ofProduct : List Clause :=
  [.mk .and false (.compareColumns ⟨.child, "productId"⟩ .eq ⟨.parent, "id"⟩)]

/-- Products, and in the same statement their variants. -/
def storeTypes : List (ObjectType Unit) :=
  [.ofFields "Query" none queryFields,
    .ofFields "Product" (some (tableOf "products" "id")) [plainField "id" .scalar,
      plainField "name" .scalar,
      { plainField "variants" (.object "Variant" true) with join := some (fun _ _ => ofProduct) }],
    .ofFields "Variant" (some (tableOf "variants" "id")) [plainField "id" .scalar]]

def store : Schema Unit := ⟨storeTypes, .ofFields "Query" none queryFields⟩

theorem build_store : Schema.build storeTypes "Query" = .ok store := by rfl

def joinedVariants : Table := { variantsTable with
  join := some ofProduct
  batch := none }

def joinedVariantNodes : List Node :=
  [.column ⟨.name "id", "id", "id", true, none, joinedVariants.location⟩,
    .column ⟨.name "id", "id", "id", false, none, joinedVariants.location ++ ["id"]⟩]

def storeNodes (key : String) : List Node :=
  [.column ⟨.name "id", "id", "id", true, none, productsTable.location⟩,
    .column ⟨.name "name", key, key, false, none, productsTable.location ++ [key]⟩,
    .table joinedVariants joinedVariantNodes]

theorem plan_store (label : Option String) :
    store.plan false () (productsRequest label) =
      .ok (.table productsTable (storeNodes (label.getD "name"))) := by rfl

theorem distinctKeys_store (label : Option String) (h : label.getD "name" ≠ "variants") :
    Selection.DistinctKeys store store.queryType [productsRequest label] := by
  refine .intro (by simp) (fun x hx field typeName many childType found leads known => ?_)
  obtain rfl := List.mem_singleton.mp hx
  cases found
  cases leads
  cases known
  have keys : [label.getD "name", "variants"].Nodup := by simpa using h
  refine .intro keys (fun x hx field typeName many childType found leads known => ?_)
  rcases List.mem_cons.mp hx with rfl | hx
  · cases found
    cases leads
  obtain rfl := List.mem_singleton.mp hx
  cases found
  cases leads
  cases known
  refine .intro (by decide) (fun x hx field typeName many childType found leads known => ?_)
  obtain rfl := List.mem_singleton.mp hx
  cases found
  cases leads

theorem joined_store {key : String} {path : List String} {p : Table} {nodes : List Node} :
    Joined productsTable (storeNodes key) path p nodes ↔
      path = ["products"] ∧ p = productsTable ∧ nodes = storeNodes key ∨
      path = ["products", "variants"] ∧ p = joinedVariants ∧ nodes = joinedVariantNodes := by
  constructor
  · intro h
    induction h with
    | own => exact .inl ⟨rfl, rfl, rfl⟩
    | joined above member single inductionHypothesis =>
      rcases inductionHypothesis with ⟨rfl, rfl, rfl⟩ | ⟨rfl, rfl, rfl⟩
      · simp only [storeNodes, List.mem_cons, reduceCtorEq, false_or, List.not_mem_nil, or_false,
          Node.table.injEq] at member
        obtain ⟨rfl, rfl⟩ := member
        exact .inr ⟨rfl, rfl, rfl⟩
      · simp [joinedVariantNodes] at member
  · rintro (⟨rfl, rfl, rfl⟩ | ⟨rfl, rfl, rfl⟩)
    · exact .own
    · exact .joined (u := joinedVariants) .own (by simp [storeNodes]) rfl

theorem separated_store : Sql.Separated .sqlite productsTable (storeNodes "name") := by
  intro path p nodes h
  rcases joined_store.mp h with ⟨rfl, rfl, rfl⟩ | ⟨rfl, rfl, rfl⟩ <;> decide +kernel

theorem joined_variants (key : String) : Joined productsTable (storeNodes key)
    ["products", "variants"] joinedVariants joinedVariantNodes :=
  joined_store.mpr (.inr ⟨rfl, rfl, rfl⟩)

theorem statement_outputs_store : ∃ st,
    Sql.statement .sqlite (.table productsTable (storeNodes "name")) none = .ok st ∧
    ∀ ρ, (st.row .sqlite ρ).get? "variants__id" = some (ρ (qualified "variants" "id")) := by
  obtain ⟨st, stated⟩ : ∃ st,
      Sql.statement .sqlite (.table productsTable (storeNodes "name")) none = .ok st := ⟨_, rfl⟩
  obtain ⟨_, _, _, apart⟩ := Sql.statement_outputs build_store (plan_store none)
    (List.mem_cons_self ..) stated
  obtain ⟨d, own, _, read⟩ :=
    (apart separated_store _ _ _ (joined_variants "name") ⟨"id", "id", [.column "variants" "id"]⟩
      (List.mem_cons_self ..)).2
  refine ⟨st, stated, fun ρ => ?_⟩
  have source : ∀ d ∈ ownColumns .sqlite joinedVariants joinedVariantNodes,
      d.source.text .sqlite = qualified "variants" "id" := by decide
  rw [← source d own]
  exact read ρ

/-- A variant of a desk. -/
def variantRow (id : Int64) (source : String) : Value :=
  if source = qualified "products" "name" then .text "Desk"
  else if source = qualified "variants" "id" then .int id
  else .int 1

/-- The names of products under `variants__id` are taken for the numbers of their variants, so that
two variants of one product are one object. -/
theorem outputs_clash_store :
    Schema.build storeTypes "Query" = .ok store ∧
    Selection.DistinctKeys store store.queryType [productsRequest (some "variants__id")] ∧
    store.plan false () (productsRequest (some "variants__id")) =
      .ok (.table productsTable (storeNodes "variants__id")) ∧
    ∃ shape st, Shape.ofNode "" (.table productsTable (storeNodes "variants__id")) = .ok shape ∧
      Sql.statement .sqlite (.table productsTable (storeNodes "variants__id")) none = .ok st ∧
      (∃ c ∈ ownColumns .sqlite productsTable (storeNodes "variants__id"),
        ∃ d ∈ ownColumns .sqlite joinedVariants joinedVariantNodes,
          c.item ["products"] ∈ st.part.items ∧ d.item ["products", "variants"] ∈ st.part.items ∧
          (c.item ["products"]).output = (d.item ["products", "variants"]).output) ∧
      Hydration.objects shape ([variantRow 7, variantRow 8].map (st.row .sqlite)) =
        .ok [.object [("id", .int 1), ("variants__id", .text "Desk"),
          ("variants", .list [.object [("id", .text "Desk")]])]] := by
  let name : Sql.OwnColumn := ⟨"variants__id", "variants__id", [.column "products" "name"]⟩
  let number : Sql.OwnColumn := ⟨"id", "id", [.column "variants" "id"]⟩
  have named : name ∈ ownColumns .sqlite productsTable (storeNodes "variants__id") :=
    List.mem_cons_of_mem _ (List.mem_cons_self ..)
  have numbered : number ∈ ownColumns .sqlite joinedVariants joinedVariantNodes :=
    List.mem_cons_self ..
  exact ⟨build_store, distinctKeys_store _ (by decide), plan_store _, _, _, rfl, rfl,
    ⟨name, named, number, numbered, .tail _ (.head _), .tail _ (.tail _ (.head _)), rfl⟩, rfl⟩

end Store

end TreeQuery
