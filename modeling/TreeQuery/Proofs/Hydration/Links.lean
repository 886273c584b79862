import TreeQuery.Batch
import TreeQuery.Execution
import TreeQuery.Proofs.Connection.Conversion
import TreeQuery.Proofs.Hydration.Nested
import TreeQuery.Proofs.Plan.Identity

/-!
Which rows of a table have an object. A joined table has one for each unique key among its rows, so
that a link that leads to no child has none. In a batch the rows are also told apart by the key of
the children, which such a link has, and there it does have one.
-/

namespace TreeQuery

open Plan (Node Table)

/-- The key in a cell, none if it is null. -/
def Row.keyAt (r : Row) (label : String) : Option Key := (r.value label).key?

/-- What rows of a batch are told apart by, the key first by which they are handed over. -/
def Row.linkKeys (r : Row) (link key : String) : Option Key × Option Key :=
  (r.keyAt link, r.keyAt key)

theorem Value.key?_normalize (v : Value) : v.normalize.key? = v.key? := by
  have double (x : Double) : (ofDouble x).key? = some (Key.ofDouble x) := by
    rw [ofDouble]
    split
    · rename_i whole
      rw [key?, Key.ofDouble, if_pos (Bool.and_eq_true_iff.mp whole).1]
    · rfl
  cases v with
  | double x => exact double x
  | json j =>
    cases j with
    | number n =>
      rw [normalize, normalizeJson, key?, Key.ofJson?]
      cases n.int64? with
      | none => exact double _
      | some i => rfl
    | _ => rfl
  | _ => rfl

namespace Hydration

variable {s : Shape} {rows : List Row} {labels : List String}

/-- The object that some rows stand for. -/
def objectOf (s : Shape) (rows : List Row) : Value :=
  .object (Fields.ofPairs (fieldsOf s.fields rows))

theorem values_eq (s : Shape) (rows : List Row) :
    values s rows = (groupsOf s.identity rows).map (fun g => objectOf s g.2) := by
  obtain ⟨fields⟩ := s
  rfl

theorem keyOf_eq_iff {r r' : Row} :
    keyOf labels r = keyOf labels r' ↔ ∀ l ∈ labels, r.keyAt l = r'.keyAt l :=
  List.map_inj_left

theorem isMatched_keyOf {r : Row} :
    isMatched (keyOf labels r) ↔ ∃ l ∈ labels, (r.keyAt l).isSome := by
  simp [isMatched, keyOf, Row.keyAt, Option.isSome_iff_ne_none]

/-- Rows may be told apart by anything that does so as their identity does. -/
theorem values_regrouped {β : Type} [DecidableEq β] {f : Row → β}
    (same : ∀ r ∈ rows, ∀ r' ∈ rows, keyOf s.identity r = keyOf s.identity r' ↔ f r = f r') :
    values s rows = (distinct ((rows.filter (fun r => isMatched (keyOf s.identity r))).map f)).map
      (fun b => objectOf s (rows.filter (fun r => f r = b))) := by
  rw [values_eq, groupsOf, List.map_map, matchedKeys, List.filter_map]
  refine map_distinct_congr _ (fun r hr r' hr' => same r (List.mem_of_mem_filter hr) r'
    (List.mem_of_mem_filter hr')) (fun r hr => congrArg (objectOf s) ?_)
  refine List.filter_congr (fun r' hr' => decide_eq_decide.mpr ?_)
  exact same r' hr' r (List.mem_of_mem_filter hr)

/-- Rows that found no match may be left out before. -/
theorem values_filter {keep : Row → Bool}
    (matched : ∀ r ∈ rows, isMatched (keyOf s.identity r) → keep r) :
    values s (rows.filter keep) = values s rows := by
  have kept : (rows.filter keep).filter (fun r => isMatched (keyOf s.identity r)) =
      rows.filter (fun r => isMatched (keyOf s.identity r)) := by
    rw [List.filter_filter]
    refine List.filter_congr (fun r member => ?_)
    cases m : isMatched (keyOf s.identity r) with
    | false => rfl
    | true => rw [matched r member m, Bool.and_self]
  rw [values_regrouped (f := keyOf s.identity) (fun _ _ _ _ => Iff.rfl),
    values_regrouped (f := keyOf s.identity) (fun _ _ _ _ => Iff.rfl), kept]
  refine List.map_congr_left (fun k member => congrArg (objectOf s) ?_)
  obtain ⟨r, among, rfl⟩ := List.mem_map.mp (mem_distinct.mp member)
  have found := (List.mem_filter.mp among).2
  rw [List.filter_filter]
  refine List.filter_congr (fun r' member' => ?_)
  by_cases alike : keyOf s.identity r' = keyOf s.identity r
  · rw [matched r' member' (alike ▸ found), Bool.and_true]
  · rw [decide_eq_false alike, Bool.false_and]

theorem length_values (s : Shape) (rows : List Row) :
    (values s rows).length = (distinct (matchedKeys s.identity rows)).length := by
  rw [values_eq, List.length_map, groupsOf, List.length_map]

/-- There are fewer objects without a row that found a match, unless another one with its identity
is kept. -/
theorem length_values_lt {keep : Row → Bool} {r : Row} (member : r ∈ rows)
    (matched : isMatched (keyOf s.identity r))
    (alone : ∀ r' ∈ rows, keep r' → keyOf s.identity r' ≠ keyOf s.identity r) :
    (values s (rows.filter keep)).length < (values s rows).length := by
  rw [length_values, length_values]
  have among : keyOf s.identity r ∈ matchedKeys s.identity rows :=
    List.mem_filter.mpr ⟨List.mem_map_of_mem member, matched⟩
  have less : matchedKeys s.identity (rows.filter keep) ⊆ matchedKeys s.identity rows :=
    List.filter_subset _ (List.map_subset _ (List.filter_subset_self rows))
  have gone : keyOf s.identity r ∉ matchedKeys s.identity (rows.filter keep) := by
    intro there
    obtain ⟨r', kept, same⟩ := List.mem_map.mp (List.mem_of_mem_filter there)
    obtain ⟨here, kept⟩ := List.mem_filter.mp kept
    exact alone r' here kept same
  have nodup : (keyOf s.identity r ::
      distinct (matchedKeys s.identity (rows.filter keep))).Nodup :=
    List.nodup_cons.mpr ⟨mt mem_distinct.mp gone, nodup_distinct _⟩
  refine (List.Nodup.subperm nodup (List.cons_subset.mpr ⟨mem_distinct.mpr among, ?_⟩)).length_le
  exact fun k there => mem_distinct.mpr (less (mem_distinct.mp there))

/-- If the rows were grouped, each of them has its identity. -/
theorem carry_of_groupRows {groups : Grouping Identity Row}
    (grouped : groupRows labels rows = .ok groups) : Carry rows labels := by
  obtain ⟨_, each, _⟩ := bind_eq_ok.mp grouped
  intro r member a among
  obtain ⟨_, identified⟩ := ok_of_mapM_ok each r member
  obtain ⟨k, identified, _⟩ := map_eq_ok.mp identified
  obtain ⟨_, read⟩ := ok_of_mapM_ok identified a among
  obtain ⟨v, read, _⟩ := map_eq_ok.mp read
  rw [cell] at read
  split at read
  · rename_i found
    exact Fields.isSome_get?.mp (Option.isSome_iff_exists.mpr ⟨_, found⟩)
  · cases read

/-- An object stands for the rows that have the identity of one which found a match. -/
theorem Folds.identity {own : List Row} {o : Fields Value} (folds : Folds s rows own o) :
    ∃ r ∈ rows, isMatched (keyOf s.identity r) ∧
      own = rows.filter (fun r' => keyOf s.identity r' = keyOf s.identity r) := by
  obtain ⟨groups, k, _, grouped, group, _⟩ := folds
  cases grouped.symm.trans (groupRows_eq (carry_of_groupRows grouped))
  obtain ⟨k, among, same⟩ := List.mem_map.mp group
  cases same
  obtain ⟨keyed, matched⟩ := List.mem_filter.mp (mem_distinct.mp among)
  obtain ⟨r, member, rfl⟩ := List.mem_map.mp keyed
  exact ⟨r, member, matched, rfl⟩

/-- A field that is read from a column has what the first row has there. -/
theorem field?_objectOf {name l : String} (read : Shape.labelAt? s.fields name = some (some l))
    (r : Row) (own : List Row) : (objectOf s (r :: own)).field? name = some (r.value l) := by
  obtain ⟨f, last, column⟩ := Option.map_eq_some_iff.mp read
  cases f with
  | nested _ _ => cases column
  | column label isIdentity =>
    cases column
    rw [objectOf, Value.field?]
    change Fields.get? (Fields.ofPairs _) name = _
    rw [Shape.get?_fieldsOf, last]
    rfl

theorem itemKey?_objectOf {name l : String} (read : Shape.labelAt? s.fields name = some (some l))
    (r : Row) (own : List Row) : Groups.itemKey? name (objectOf s (r :: own)) = r.keyAt l := by
  rw [Groups.itemKey?, field?_objectOf read]
  exact Value.key?_normalize _

/-- Which objects the rows of a table fold into, when `key` labels its unique key and `link`, in a
batch, the key by which its children are handed to their parents. -/
structure FoldsBy (p : Table) (nodes : List Node) (s : Shape) (key : String)
    (link : Option String) : Prop where
  /-- An object stands for rows that have one unique key. They are without only in a batch, where
  they have a key to be handed over by. -/
  own : ∀ rows own o, Folds s rows own o → ∃ k, (∀ r ∈ own, r.keyAt key = k) ∧
    (k = none → ∃ l, link = some l ∧ ∀ r ∈ own, (r.keyAt l).isSome)
  /-- Joined, a table has an object for each unique key. -/
  joined : link = none → ∀ rows, Carry rows s.labels → objects s rows =
    .ok ((distinct ((rows.filter (fun r => (r.keyAt key).isSome)).map (Row.keyAt · key))).map
      (fun u => objectOf s (rows.filter (fun r => r.keyAt key = u))))
  /-- In a batch, the children that are handed over for a key are those of the rows with the key,
  and none is left out among their unique keys. -/
  linked : ∀ keys l, p.batchKeys? = some keys → link = some l →
    keys.thisKey.fieldName ∉ Node.joinedNames nodes → ∀ rows, Carry rows s.labels →
    ∃ items, objects s rows = .ok items ∧ ∀ k,
      items.filter (fun v => Groups.itemKey? keys.thisKey.fieldName v = some k) =
        (distinct ((rows.filter (fun r => r.keyAt l = some k)).map (Row.keyAt · key))).map
          (fun u => objectOf s (rows.filter (fun r => r.keyAt l = some k ∧ r.keyAt key = u)))
  /-- So rows without a unique key have no object if and only if they have no other key. -/
  unmatched_iff : ∀ rows, Carry rows s.labels →
    (objects s rows = objects s (rows.filter (fun r => (r.keyAt key).isSome)) ↔
      ∀ l, link = some l → ∀ r ∈ rows, r.keyAt key = none → r.keyAt l = none)

/-- The identity of a shape consists of one column and perhaps another. -/
def TellsBy (s : Shape) (key : String) (link : Option String) : Prop :=
  ∀ l, l ∈ s.identity ↔ l = key ∨ link = some l

namespace TellsBy

variable {key l : String} {link : Option String} {r r' : Row}

theorem keyOf_eq_iff (tells : TellsBy s key link) :
    keyOf s.identity r = keyOf s.identity r' ↔
      r.keyAt key = r'.keyAt key ∧ ∀ l, link = some l → r.keyAt l = r'.keyAt l := by
  rw [Hydration.keyOf_eq_iff]
  simp only [tells _, or_imp, forall_and, forall_eq]

theorem isMatched_iff (tells : TellsBy s key link) : isMatched (keyOf s.identity r) ↔
    (r.keyAt key).isSome ∨ ∃ l, link = some l ∧ (r.keyAt l).isSome := by
  rw [isMatched_keyOf]
  simp only [tells _, or_and_right, exists_or, exists_eq_left]

theorem own (tells : TellsBy s key link) {own : List Row} {o : Fields Value}
    (folds : Folds s rows own o) : ∃ k, (∀ r ∈ own, r.keyAt key = k) ∧
      (k = none → ∃ l, link = some l ∧ ∀ r ∈ own, (r.keyAt l).isSome) := by
  obtain ⟨r, _, matched, rfl⟩ := folds.identity
  have alike {r' : Row} (member : r' ∈ rows.filter
      (fun r' => keyOf s.identity r' = keyOf s.identity r)) :
      r'.keyAt key = r.keyAt key ∧ ∀ l, link = some l → r'.keyAt l = r.keyAt l :=
    tells.keyOf_eq_iff.mp (of_decide_eq_true (List.mem_filter.mp member).2)
  refine ⟨r.keyAt key, fun r' member => (alike member).1, fun unmatched => ?_⟩
  rcases tells.isMatched_iff.mp matched with found | ⟨l, linked, found⟩
  · rw [unmatched] at found
    cases found
  · exact ⟨l, linked, fun r' member => by rwa [(alike member).2 l linked]⟩

theorem joined (tells : TellsBy s key none) (rows : List Row) : values s rows =
    (distinct ((rows.filter (fun r => (r.keyAt key).isSome)).map (Row.keyAt · key))).map
      (fun u => objectOf s (rows.filter (fun r => r.keyAt key = u))) := by
  have same (r : Row) (_ : r ∈ rows) (r' : Row) (_ : r' ∈ rows) :
      keyOf s.identity r = keyOf s.identity r' ↔ r.keyAt key = r'.keyAt key := by
    rw [tells.keyOf_eq_iff]
    simp
  rw [values_regrouped same]
  congr 3
  refine List.filter_congr (fun r _ => ?_)
  rw [Bool.eq_iff_iff, tells.isMatched_iff]
  simp

/-- The rows with an identity are handed over by the key that they have in common. -/
theorem itemKey?_linkedRows {name : String}
    (read : Shape.labelAt? s.fields name = some (some l)) (member : r ∈ rows) :
    Groups.itemKey? name (objectOf s (rows.filter (fun r' => r'.linkKeys l key = r.linkKeys l key)))
      = r.keyAt l := by
  have among : r ∈ rows.filter (fun r' => r'.linkKeys l key = r.linkKeys l key) := by
    simpa using member
  obtain ⟨first, rest, own⟩ := List.exists_cons_of_ne_nil (List.ne_nil_of_mem among)
  have here : first ∈ rows.filter (fun r' => r'.linkKeys l key = r.linkKeys l key) := by simp [own]
  have alike : first.linkKeys l key = r.linkKeys l key :=
    of_decide_eq_true (List.mem_filter.mp here).2
  rw [own, itemKey?_objectOf read]
  exact congrArg Prod.fst alike

/-- The identities that are handed over for a key are those of the rows with the key. -/
theorem linkedIdentities (tells : TellsBy s key (some l)) {name : String}
    (read : Shape.labelAt? s.fields name = some (some l)) (rows : List Row) (k : Key) :
    (distinct ((rows.filter (fun r => isMatched (keyOf s.identity r))).map
        (Row.linkKeys · l key))).filter
      (fun b => Groups.itemKey? name (objectOf s (rows.filter (Row.linkKeys · l key = b))) = some k)
      = distinct ((rows.filter (fun r => r.keyAt l = some k)).map (Row.linkKeys · l key)) := by
  have found (b : Option Key × Option Key) (among : b ∈ distinct ((rows.filter
      (fun r => isMatched (keyOf s.identity r))).map (Row.linkKeys · l key))) :
      Groups.itemKey? name (objectOf s (rows.filter (Row.linkKeys · l key = b))) = b.1 := by
    obtain ⟨r, member, rfl⟩ := List.mem_map.mp (mem_distinct.mp among)
    exact itemKey?_linkedRows read (List.mem_of_mem_filter member)
  rw [List.filter_congr (fun b among => by rw [found b among]), ← distinct_filter,
    List.filter_map, List.filter_filter]
  refine congrArg (fun rows => distinct (List.map (Row.linkKeys · l key) rows))
    (List.filter_congr (fun r _ => ?_))
  rw [Bool.eq_iff_iff, Bool.and_eq_true, tells.isMatched_iff]
  simp only [Function.comp_apply, decide_eq_true_eq, Row.linkKeys]
  exact and_iff_left_of_imp (fun found => .inr ⟨l, rfl, by rw [found]; rfl⟩)

theorem linked (tells : TellsBy s key (some l)) {name : String}
    (read : Shape.labelAt? s.fields name = some (some l)) (rows : List Row) (k : Key) :
    (values s rows).filter (fun v => Groups.itemKey? name v = some k) =
      (distinct ((rows.filter (fun r => r.keyAt l = some k)).map (Row.keyAt · key))).map
        (fun u => objectOf s (rows.filter (fun r => r.keyAt l = some k ∧ r.keyAt key = u))) := by
  have same (r : Row) (_ : r ∈ rows) (r' : Row) (_ : r' ∈ rows) :
      keyOf s.identity r = keyOf s.identity r' ↔ r.linkKeys l key = r'.linkKeys l key := by
    rw [tells.keyOf_eq_iff, Row.linkKeys, Row.linkKeys, Prod.mk.injEq, and_comm]
    simp
  rw [values_regrouped same, List.filter_map]
  refine (congrArg (List.map _) (tells.linkedIdentities read rows k)).trans ?_
  -- Among the rows with the key, only the unique key is left to tell them apart.
  refine map_distinct_congr _ (fun a ha b hb => ?_) (fun a ha => congrArg (objectOf s) ?_)
  · have left := of_decide_eq_true (List.mem_filter.mp ha).2
    have right := of_decide_eq_true (List.mem_filter.mp hb).2
    simp [Row.linkKeys, left, right]
  · have left := of_decide_eq_true (List.mem_filter.mp ha).2
    simp [Row.linkKeys, left]

theorem unmatched_iff (tells : TellsBy s key link) (carry : Carry rows s.labels) :
    objects s rows = objects s (rows.filter (fun r => (r.keyAt key).isSome)) ↔
      ∀ l, link = some l → ∀ r ∈ rows, r.keyAt key = none → r.keyAt l = none := by
  rw [objects_eq s carry, objects_eq s (carry.mono (List.filter_subset_self rows)
    (List.Subset.refl _)), Except.ok.injEq]
  constructor
  · intro same l linked r member unmatched
    by_contra found
    have matched : isMatched (keyOf s.identity r) :=
      tells.isMatched_iff.mpr (.inr ⟨l, linked, Option.isSome_iff_ne_none.mpr found⟩)
    refine Nat.ne_of_gt (length_values_lt member matched ?_) (congrArg List.length same)
    intro r' _ kept alike
    rw [(tells.keyOf_eq_iff.mp alike).1, unmatched] at kept
    cases kept
  · intro unlinked
    refine (values_filter (fun r member matched => ?_)).symm
    by_contra unmatched
    rcases tells.isMatched_iff.mp matched with found | ⟨l, linked, found⟩
    · exact unmatched found
    · rw [unlinked l linked r member (by simpa using unmatched)] at found
      cases found

end TellsBy

/-- A planned table is told apart by its unique key and, in a batch, by its children's key. -/
theorem tellsBy_of_headed {p : Table} {nodes : List Node} (headed : p.Headed nodes) {path : String}
    (shaped : Shape.ofNode path (.table p nodes) = .ok s) :
    ∃ u, Node.uniqueLabel? nodes = some u ∧
      TellsBy s (path ++ u) ((p.linkLabel? nodes).map (path ++ ·)) := by
  obtain ⟨fields, made, _, rfl⟩ := Shape.ofNode_table_ok.mp shaped
  obtain ⟨u, unique, identity⟩ := headed.mem_identityOf made
  refine ⟨u, unique, fun l => (identity l).trans (or_congr_right ?_)⟩
  rw [Option.map_eq_some_iff]
  exact exists_congr (fun _ => and_congr_right (fun _ => eq_comm))

/-- So it folds by them. -/
theorem foldsBy_of_headed {p : Table} {nodes : List Node} (headed : p.Headed nodes) {path : String}
    (shaped : Shape.ofNode path (.table p nodes) = .ok s) :
    ∃ u, Node.uniqueLabel? nodes = some u ∧
      FoldsBy p nodes s (path ++ u) ((p.linkLabel? nodes).map (path ++ ·)) := by
  obtain ⟨u, unique, tells⟩ := tellsBy_of_headed headed shaped
  refine ⟨u, unique, fun _ _ _ => tells.own, fun alone rows carry => ?_, ?_,
    fun _ => tells.unmatched_iff⟩
  · rw [alone] at tells
    rw [objects_eq _ carry, tells.joined]
  · intro keys l batch link apart rows carry
    rw [link] at tells
    rw [Table.linkLabel?, batch, Option.bind_some] at link
    obtain ⟨label, first, rfl⟩ := Option.map_eq_some_iff.mp link
    obtain ⟨fields, made, _, rfl⟩ := Shape.ofNode_table_ok.mp shaped
    have read : Shape.labelAt? fields keys.thisKey.fieldName = some (some (path ++ label)) := by
      rw [Shape.labelAt?_ofChildren _ made, if_neg apart, first]
      rfl
    exact ⟨_, objects_eq _ carry, tells.linked read rows⟩

end Hydration

section Request

variable {Ctx : Type} {schema : Schema Ctx} {minify : Bool} {cx : Ctx} {x : Selection}

/-- Every table of a plan, however it is reached and whether or not in pages, has a shape, and folds
its rows by its unique key and by nothing else, unless it is a batch, whose rows are also told apart
by the key by which children are handed to their parents. -/
theorem plan_folds {root : Node} (planned : schema.plan minify cx x = .ok root) :
    root.Everywhere (fun p nodes => (p.linkLabel? nodes).isSome = p.isBatch ∧
      ∀ path, ∃ s u, Shape.ofNode path (.table p nodes) = .ok s ∧
        Node.uniqueLabel? nodes = some u ∧
        Hydration.FoldsBy p nodes s (path ++ u) ((p.linkLabel? nodes).map (path ++ ·))) := by
  have headed := Plan.everywhere_subtrees root (Plan.plan_headed planned)
  refine Node.everywhere_mono (fun p nodes headed => ⟨headed.1.isSome_linkLabel?, ?_⟩) root headed
  intro path
  obtain ⟨s, shaped⟩ := Plan.shaped_of_headed (.table p nodes) headed rfl path
  obtain ⟨u, unique, folds⟩ := Hydration.foldsBy_of_headed headed.1 shaped
  exact ⟨s, u, shaped, unique, folds⟩

end Request

section Tagged

/-- A column of the parent is one of the child. -/
def equates (parent child : String) : List Clause :=
  [.mk .and false (.compareColumns ⟨.parent, parent⟩ .eq ⟨.child, child⟩)]

/-- Products lead to their tags by a table of links. -/
def tagLinks : JunctionConfig Unit where
  table := .ident "productTags"
  fromParent := some (fun _ _ => equates "id" "productId")
  toChild := some (fun _ _ => equates "tagName" "name")
  filter := none
  orderBy := none
  sortKey := none
  batch := none

/-- The tags of all products are fetched at once. -/
def batchedTagLinks : JunctionConfig Unit := { tagLinks with
  fromParent := none
  toChild := none
  batch := some ⟨"productId", "id", some (fun _ _ => equates "tagName" "name")⟩ }

def linkedTagTypes (links : JunctionConfig Unit) : List (ObjectType Unit) :=
  [.ofFields "Query" none queryFields,
    .ofFields "Product" (some (tableOf "products" "id")) [plainField "id" .scalar,
      { plainField "tags" (.object "Tag" true) with junction := some links }],
    .ofFields "Tag" (some (tableOf "tags" "name")) [plainField "name" .scalar]]

def linkedTags (links : JunctionConfig Unit) : Schema Unit :=
  ⟨linkedTagTypes links, .ofFields "Query" none queryFields⟩

theorem build_linkedTags :
    Schema.build (linkedTagTypes tagLinks) "Query" = .ok (linkedTags tagLinks) ∧
    Schema.build (linkedTagTypes batchedTagLinks) "Query" = .ok (linkedTags batchedTagLinks) :=
  ⟨by rfl, by rfl⟩

def namedTags : Selection :=
  ⟨"products", none, .empty, [⟨"tags", none, .empty, [.leaf "name" none]⟩]⟩

def tagsJunction : Plan.Junction where
  table := .ident "productTags"
  label := "productTags"
  fromParent := none
  toChild := none
  filter := []
  orderBy := none
  sortKey := none
  batch := some ⟨⟨⟨"productId", "productId", "productId"⟩, ⟨"id", "id", "id"⟩⟩,
    some (equates "tagName" "name")⟩

def namedTagsTable : Table := { productsTable with
  name := .ident "tags"
  label := "tags"
  fieldName := "tags"
  junction := some tagsJunction
  location := ["Query", "products", "tags"] }

def namedTagNodes : List Node :=
  [.column ⟨.name "name", "name", "name", true, none, namedTagsTable.location⟩,
    .column ⟨.name "productId", "productId", "productId", true, some "productTags",
      namedTagsTable.location⟩,
    .column ⟨.name "name", "name", "name", false, none, namedTagsTable.location ++ ["name"]⟩]

theorem plan_namedTags : (linkedTags batchedTagLinks).plan false () namedTags =
    .ok (.table productsTable
      [.column ⟨.name "id", "id", "id", true, none, productsTable.location⟩,
        .table namedTagsTable namedTagNodes]) := by rfl

/-- A link of product 1. -/
def linkRow (name : Value) : Row := ⟨[("name", name), ("productId", .int 1)]⟩

def tagRows : List Row := [linkRow (.text "oak"), linkRow .null]

theorem plan_folds_tagged : ∃ s, Shape.ofNode "" (.table namedTagsTable namedTagNodes) = .ok s ∧
    Hydration.objects s tagRows ≠
      Hydration.objects s (tagRows.filter (fun r => (r.keyAt "name").isSome)) := by
  obtain ⟨_, folds⟩ := (plan_folds plan_namedTags).2.2.1.1
  obtain ⟨s, u, shaped, unique, folds⟩ := folds ""
  cases unique
  refine ⟨s, shaped, mt (folds.unmatched_iff tagRows ?_).mp ?_⟩
  · cases shaped
    refine List.forall_mem_cons.mpr ⟨?_, List.forall_mem_singleton.mpr ?_⟩ <;> decide
  · intro unlinked
    have second : linkRow .null ∈ tagRows := List.mem_cons_of_mem _ (List.mem_singleton_self _)
    cases unlinked "productId" rfl _ second rfl

/-- Product 1 with its links, as the statement of either form returns them. -/
def linkedTagsDriver : Driver Unit where
  answer _ s := (.rows false
    [⟨.ok ⟨[("id", .int 1), ("productId", .int 1), ("name", .text "oak"),
        ("tags__name", .text "oak")]⟩, false⟩,
      ⟨.ok ⟨[("id", .int 1), ("productId", .int 1), ("name", .null), ("tags__name", .null)]⟩,
        false⟩], s)

/-- A link that leads to no tag has none if the tags are joined, but one without a name if they are
fetched in a batch. -/
theorem unmatched_link_kept_tagged :
    (Schema.build (linkedTagTypes tagLinks) "Query" = .ok (linkedTags tagLinks) ∧
      ∃ s', execute (linkedTags tagLinks) .sqlite false () linkedTagsDriver namedTags
          ⟨(), false, []⟩ =
        (.ok (.list [.object [("id", .int 1), ("tags", .list [.object [("name", .text "oak")]])]]),
          s')) ∧
    Schema.build (linkedTagTypes batchedTagLinks) "Query" = .ok (linkedTags batchedTagLinks) ∧
      ∃ s', execute (linkedTags batchedTagLinks) .sqlite false () linkedTagsDriver namedTags
          ⟨(), false, []⟩ =
        (.ok (.list [.object [("id", .int 1), ("tags", .list [
          .object [("name", .text "oak"), ("productId", .int 1)],
          .object [("name", .null), ("productId", .int 1)]])]]), s') :=
  ⟨⟨build_linkedTags.1, _, Prod.ext rfl rfl⟩, build_linkedTags.2, _, Prod.ext rfl rfl⟩

end Tagged

end TreeQuery
