import TreeQuery.Execution
import TreeQuery.Proofs.Connection.Trimmed
import TreeQuery.Proofs.Fields
import TreeQuery.Proofs.Grouping
import TreeQuery.Proofs.Session

/-!
What a batch hands to the parents. Whatever lists and connections the parents stand in, each gets
the children whose key is one of its own, and no others.
-/

namespace TreeQuery

namespace Value

mutual

/-- Changes the objects in a value, looking through lists and connections. -/
def mapObjects (f : Fields Value → Fields Value) : Value → Value
  | .object fields => .object (f fields)
  | .list items => .list (mapItems f items)
  | .connection edges info total => .connection (mapNodes f edges) info total
  | v => v

def mapItems (f : Fields Value → Fields Value) : List Value → List Value
  | [] => []
  | v :: r => mapObjects f v :: mapItems f r

def mapNodes (f : Fields Value → Fields Value) : List (String × Value) → List (String × Value)
  | [] => []
  | (c, v) :: r => (c, mapObjects f v) :: mapNodes f r

end

theorem mapItems_eq_map (f : Fields Value → Fields Value) (vs : List Value) :
    mapItems f vs = vs.map (mapObjects f) := by
  induction vs with
  | nil => rfl
  | cons v vs ih => rw [mapItems, ih, List.map_cons]

theorem length_refillItems (vs : List Value) (os : List (Fields Value)) :
    (refillItems vs os).1.length = vs.length := by
  induction vs generalizing os with
  | nil => rfl
  | cons v vs ih =>
    rw [refillItems, List.length_cons, List.length_cons, ih]

mutual

/-- Objects that are taken out, changed one by one and put back are changed where they stand. -/
theorem refill_map (f : Fields Value → Fields Value) : (v : Value) → (os : List (Fields Value)) →
    refill v ((objects v).map f ++ os) = (mapObjects f v, os)
  | .object fields, os => rfl
  | .list items, os => by
    rw [objects, refill, refillItems_map f items os, mapObjects]
  | .connection edges info total, os => by
    rw [objects, refill, refillNodes_map f edges os, mapObjects]
  | .null, _ | .bool _, _ | .int _, _ | .double _, _ | .text _, _ | .json _, _ => rfl

theorem refillItems_map (f : Fields Value → Fields Value) : (vs : List Value) →
    (os : List (Fields Value)) →
    refillItems vs ((itemObjects vs).map f ++ os) = (mapItems f vs, os)
  | [], _ => rfl
  | v :: r, os => by
    rw [itemObjects, List.map_append, List.append_assoc, refillItems, refill_map f v]
    simp only [refillItems_map f r os, mapItems]

theorem refillNodes_map (f : Fields Value → Fields Value) : (es : List (String × Value)) →
    (os : List (Fields Value)) →
    refillNodes es ((nodeObjects es).map f ++ os) = (mapNodes f es, os)
  | [], _ => rfl
  | (c, v) :: r, os => by
    rw [nodeObjects, List.map_append, List.append_assoc, refillNodes, refill_map f v]
    simp only [refillNodes_map f r os, mapNodes]

end

end Value

namespace Batch

open Plan (Node Table)

/-- The items with a key under the name of the column that the batch is matched by. -/
def childrenOf (keys : Plan.Batch) (items : List Value) (k : Key) : List Value :=
  items.filter (fun v => Groups.itemKey? keys.thisKey.fieldName v = some k)

/-- What a parent with some keys is given, out of the children of each key. The nodes of a page are
those of the first key's children that the page shows, in its order. -/
structure Spliced (t : Table) (children : Key → List Value) (keys : List Key) (v : Value) :
    Prop where
  list : t.many → ¬t.paginate → v = match keys.flatMap children with
    | [] => .null
    | items => .list items
  single : ¬t.many → ¬t.paginate → v = (keys.flatMap children).headD .null
  page : t.many → t.paginate → match keys.find? (fun k => !(children k).isEmpty) with
    | some k => Connection.ofItems t (children k) = .ok v ∧ ∃ p edges info total,
        t.paging = .ok p ∧ v = .connection edges info total ∧
          edges.map Prod.snd = p.shown (children k)
    | none => v = .emptyConnection

section Attaching

variable {t : Table} {keys : Plan.Batch} {items : List Value} {groups : Groups}

theorem valuesOf_ofItems (k : Key) : (Groups.ofItems keys.thisKey.fieldName items).valuesOf k =
    childrenOf keys items k := by
  rw [Groups.ofItems, Grouping.valuesOf_ofPairs, childrenOf]
  induction items with
  | nil => rfl
  | cons v items ih =>
    rw [List.filterMap_cons, List.filter_cons]
    cases h : Groups.itemKey? keys.thisKey.fieldName v with
    | none => simpa using ih
    | some l =>
      by_cases hl : l = k
      · simpa [hl] using ih
      · simpa [hl] using ih

theorem mem_keys_ofItems (k : Key) :
    k ∈ (Groups.ofItems keys.thisKey.fieldName items).keys ↔ childrenOf keys items k ≠ [] := by
  rw [Groups.ofItems, Grouping.keys_ofPairs, mem_distinct]
  simp [childrenOf]

theorem get?_groupValues {g : Grouping Key Value} (h : Execution.groupValues t g = .ok groups)
    (k : Key) : if k ∈ g.keys then
        ∃ v, groups.get? k = some v ∧ Execution.groupValue t (g.valuesOf k) = .ok v
      else groups.get? k = none := by
  induction g generalizing groups with
  | nil =>
    cases h
    rfl
  | cons p r ih =>
    obtain ⟨l, vs⟩ := p
    rw [Execution.groupValues] at h
    obtain ⟨v, hv, h⟩ := bind_eq_ok.mp h
    obtain ⟨rest, hr, h⟩ := bind_eq_ok.mp h
    cases h
    by_cases hl : l = k
    · rw [if_pos (by simp [Grouping.keys, hl])]
      refine ⟨v, by simp [Groups.get?, hl], ?_⟩
      simpa [Grouping.valuesOf, hl] using hv
    · have member : k ∈ Grouping.keys ((l, vs) :: r) ↔ k ∈ Grouping.keys r := by
        simp [Grouping.keys, Ne.symm hl]
      simp only [member, Grouping.valuesOf, Groups.get?, if_neg hl]
      exact ih hr

/-- A key leads to a group if there are children with it. -/
theorem get?_of_children
    (h : Execution.groupValues t (Groups.ofItems keys.thisKey.fieldName items) = .ok groups)
    {k : Key} (hk : childrenOf keys items k ≠ []) : ∃ v, groups.get? k = some v ∧
      Execution.groupValue t (childrenOf keys items k) = .ok v := by
  have found := get?_groupValues h k
  rw [if_pos ((mem_keys_ofItems k).mpr hk), valuesOf_ofItems] at found
  exact found

theorem get?_of_no_children
    (h : Execution.groupValues t (Groups.ofItems keys.thisKey.fieldName items) = .ok groups)
    {k : Key} (hk : childrenOf keys items k = []) : groups.get? k = none := by
  have found := get?_groupValues h k
  rw [if_neg (fun hm => (mem_keys_ofItems k).mp hm hk)] at found
  exact found

/-- Without pages, a group is the list of its children. -/
theorem groupValues_unpaged (unpaged : ¬t.paginate) (g : Grouping Key Value) :
    Execution.groupValues t g = .ok (g.map (fun p => (p.1, .list p.2))) := by
  induction g with
  | nil => rfl
  | cons p g ih =>
    rw [Execution.groupValues, Execution.groupValue, if_neg unpaged, ih, List.map_cons]
    rfl

theorem ne_nil_of_mem_ofItems {keyField : String} {p : Key × List Value}
    (member : p ∈ Groups.ofItems keyField items) : p.2 ≠ [] := by
  rw [Groups.ofItems, Grouping.ofPairs_eq] at member
  obtain ⟨k, present, rfl⟩ := List.mem_map.mp member
  obtain ⟨q, among, rfl⟩ := List.mem_map.mp (mem_distinct.mp present)
  exact List.ne_nil_of_mem
    (List.mem_map_of_mem (List.mem_filter.mpr ⟨among, decide_eq_true rfl⟩))

theorem itemKey?_of_mem_ofItems {keyField : String} {p : Key × List Value}
    (member : p ∈ Groups.ofItems keyField items) {v : Value} (inside : v ∈ p.2) :
    Groups.itemKey? keyField v = some p.1 := by
  rw [Groups.ofItems, Grouping.ofPairs_eq] at member
  obtain ⟨k, _, rfl⟩ := List.mem_map.mp member
  obtain ⟨q, among, rfl⟩ := List.mem_map.mp inside
  obtain ⟨pair, own⟩ := List.mem_filter.mp among
  obtain ⟨w, _, made⟩ := List.mem_filterMap.mp pair
  obtain ⟨l, key, rfl⟩ := Option.map_eq_some_iff.mp made
  exact key.trans (congrArg some (of_decide_eq_true own))

/-- The groups of some keys are lists that make up the values of the keys. -/
theorem filterMap_get?_lists {g : Grouping Key Value} (nonempty : ∀ p ∈ g, p.2 ≠ [])
    (ks : List Key) : ∃ lists : List (List Value),
      ks.filterMap (Groups.get? (g.map (fun p => (p.1, .list p.2)))) = lists.map .list ∧
      (∀ l ∈ lists, l ≠ []) ∧ lists.flatten = ks.flatMap g.valuesOf := by
  have group (k : Key) : Groups.get? (g.map (fun p => (p.1, .list p.2))) k =
      if g.valuesOf k = [] then none else some (.list (g.valuesOf k)) := by
    induction g with
    | nil => rfl
    | cons p g ih =>
      obtain ⟨present, others⟩ := List.forall_mem_cons.mp nonempty
      rw [List.map_cons, Groups.get?, Grouping.valuesOf, ih others]
      by_cases same : p.1 = k
      · rw [if_pos same, if_pos same, if_neg present]
      · rw [if_neg same, if_neg same]
  induction ks with
  | nil => exact ⟨[], rfl, by simp, rfl⟩
  | cons k ks ih =>
    obtain ⟨lists, found, present, all⟩ := ih
    rw [List.filterMap_cons, List.flatMap_cons, group k]
    by_cases none : g.valuesOf k = []
    · exact ⟨lists, by rw [if_pos none, found], present, by rw [none, all]; rfl⟩
    · refine ⟨g.valuesOf k :: lists, ?_, List.forall_mem_cons.mpr ⟨none, present⟩, ?_⟩
      · rw [if_neg none, found, List.map_cons]
      · rw [List.flatten_cons, all]

/-- Without pages, the groups of some keys are lists that make up the children of the keys. -/
theorem filterMap_get? (unpaged : ¬t.paginate)
    (h : Execution.groupValues t (Groups.ofItems keys.thisKey.fieldName items) = .ok groups)
    (ks : List Key) : ∃ lists : List (List Value), ks.filterMap groups.get? = lists.map .list ∧
      (∀ l ∈ lists, l ≠ []) ∧ lists.flatten = ks.flatMap (childrenOf keys items) := by
  rw [groupValues_unpaged unpaged] at h
  cases h
  obtain ⟨lists, found, nonempty, all⟩ :=
    filterMap_get?_lists (fun _ member => ne_nil_of_mem_ofItems member) ks
  exact ⟨lists, found, nonempty, all.trans (congrArg ks.flatMap (funext valuesOf_ofItems))⟩

theorem head?_filterMap_get?
    (h : Execution.groupValues t (Groups.ofItems keys.thisKey.fieldName items) = .ok groups)
    (ks : List Key) :
    match ks.find? (fun k => !(childrenOf keys items k).isEmpty) with
    | some k => ∃ v, (ks.filterMap groups.get?).head? = some v ∧
        Execution.groupValue t (childrenOf keys items k) = .ok v
    | none => ks.filterMap groups.get? = [] := by
  induction ks with
  | nil => rfl
  | cons k ks ih =>
    rw [List.find?_cons, List.filterMap_cons]
    by_cases hk : childrenOf keys items k = []
    · rw [get?_of_no_children h hk]
      simpa [hk] using ih
    · obtain ⟨v, found, made⟩ := get?_of_children h hk
      have present : (childrenOf keys items k).isEmpty = false := by simpa using hk
      simp [present, found, made]

theorem flatMap_list? (lists : List (List Value)) :
    (lists.map Value.list).flatMap (fun v => v.list?.getD []) = lists.flatten := by
  induction lists with
  | nil => rfl
  | cons l lists ih =>
    rw [List.map_cons, List.flatMap_cons, ih, List.flatten_cons]
    rfl

/-- What a parent of lists is given. -/
theorem attach_lists {o : Fields Value} {lists : List (List Value)} (many : t.many)
    (unpaged : ¬t.paginate) (found : (parentKeys t o).filterMap groups.get? = lists.map .list)
    (nonempty : ∀ l ∈ lists, l ≠ []) : attach t (some groups) o =
      if lists.flatten.isEmpty then .null else .list lists.flatten := by
  simp only [attach, found, many, unpaged]
  cases lists with
  | nil => rfl
  | cons l lists =>
    obtain ⟨v, vs, rfl⟩ := List.exists_cons_of_ne_nil (nonempty l (by simp))
    cases lists with
    | nil => simp
    | cons m lists => exact congrArg Value.list (flatMap_list? _)

theorem spliced_attach
    (h : Execution.groupValues t (Groups.ofItems keys.thisKey.fieldName items) = .ok groups)
    (o : Fields Value) :
    Spliced t (childrenOf keys items) (parentKeys t o) (attach t (some groups) o) where
  list many unpaged := by
    obtain ⟨lists, found, nonempty, all⟩ := filterMap_get? unpaged h (parentKeys t o)
    rw [attach_lists many unpaged found nonempty, all]
    cases (parentKeys t o).flatMap (childrenOf keys items) <;> rfl
  single one unpaged := by
    obtain ⟨lists, found, nonempty, all⟩ := filterMap_get? unpaged h (parentKeys t o)
    rw [← all]
    simp only [attach, found, one]
    cases lists with
    | nil => rfl
    | cons l lists =>
      obtain ⟨v, vs, rfl⟩ := List.exists_cons_of_ne_nil (nonempty l (by simp))
      rfl
  page many paged := by
    have found := head?_filterMap_get? h (parentKeys t o)
    split at found
    · obtain ⟨v, first, made⟩ := found
      rw [Execution.groupValue, if_pos paged] at made
      obtain ⟨rest, found⟩ := List.head?_eq_some_iff.mp first
      have attached : attach t (some groups) o = v := by
        simp only [attach, found, many, paged]
        cases rest <;> rfl
      rw [attached]
      exact ⟨made, Connection.ofItems_shown made⟩
    · simp [attach, found, many, paged]

end Attaching

end Batch

namespace Execution

open Batch (Spliced childrenOf parentKeys)
open Plan (Node Table)
open Value (itemObjects mapObjects)

variable {σ : Type} {fl : Sql.Flavor} {d : Driver σ} {s s' : Session σ}

theorem anyBatch_eq_false {cs : List Node} :
    Node.anyBatch cs = false ↔ ∀ c ∈ cs, c.isBatch = false ∧ c.hasBatchBelow = false := by
  induction cs with
  | nil => simp [Node.anyBatch]
  | cons c cs ih => simp [Node.anyBatch, ih]

theorem fetchBatches_append {w : Run.Waiting} {before cs : List Node} {objects : List (Fields Value)}
    (h : Node.anyBatch before = false) :
    fetchBatches fl d w (before ++ cs) objects = fetchBatches fl d w cs objects := by
  rw [anyBatch_eq_false] at h
  induction before with
  | nil => rfl
  | cons c before ih =>
    have later := ih (fun c hc => h c (List.mem_cons_of_mem _ hc))
    match c with
    | .table t children =>
      have unbatched : t.isBatch = false := (h _ (List.mem_cons_self ..)).1
      rw [List.cons_append, fetchBatches, unbatched]
      exact later
    | .column _ | .composite _ | .noop _ _ => exact later

/-- There is nothing to go into if only the tables themselves are batches. -/
theorem runJoined_eq_pure {w : Run.Waiting} {seen : List String} {cs : List Node}
    {objects : List (Fields Value)} (h : ∀ c ∈ cs, c.isBatch ∨ c.hasBatchBelow = false) :
    runJoined fl d w seen cs objects = pure objects := by
  induction cs generalizing seen with
  | nil => rfl
  | cons c cs ih =>
    have later {seen : List String} : runJoined fl d w seen cs objects = pure objects :=
      ih (fun c hc => h c (List.mem_cons_of_mem _ hc))
    match c with
    | .table t children =>
      have skipped : (t.isBatch || !Node.anyBatch children) = true := by
        rcases h _ (List.mem_cons_self ..) with own | below
        · rw [show t.isBatch = true from own, Bool.true_or]
        · rw [show Node.anyBatch children = false from below, Bool.not_false, Bool.or_true]
      rw [runJoined, skipped, Bool.true_or, if_pos rfl]
      exact later
    | .column _ | .composite _ | .noop _ _ => exact later

/-- The items that the statement of a batch returned. Without keys there is no statement. -/
def Returned (fl : Sql.Flavor) (d : Driver σ) (t : Table) (children : List Node) (scope : List Key)
    (s : Session σ) (items : List Value) (s' : Session σ) : Prop :=
  if scope.isEmpty then items = [] ∧ s' = s
  else ∃ hydrated, fetch fl d (.table t children) (some (scope.map Key.toValue)) s =
      (.ok hydrated, s') ∧ hydrated.mapM (Connection.convertChildren children) = .ok items

theorem requireKeys_ok {t : Table} {keys : Plan.Batch} (hk : t.batchKeys? = some keys) :
    requireKeys t = .ok keys := by
  rw [requireKeys, hk]

theorem fetchGroups_ok {t : Table} {keys : Plan.Batch} {children : List Node} {scope : List Key}
    {groups : Groups} (hk : t.batchKeys? = some keys)
    (h : fetchGroups fl d t children scope s = (.ok groups, s')) :
    ∃ hydrated items, fetch fl d (.table t children) (some (scope.map Key.toValue)) s =
        (.ok hydrated, s') ∧
      hydrated.mapM (Connection.convertChildren children) = .ok items ∧
      groupValues t (Groups.ofItems keys.thisKey.fieldName items) = .ok groups := by
  obtain ⟨hydrated, s₁, fetched, h⟩ := Run.bind_ok.mp h
  obtain ⟨_, s₂, required, h⟩ := Run.bind_ok.mp h
  rw [requireKeys_ok hk] at required
  obtain ⟨rfl, rfl⟩ := Run.pure_ok.mp required
  obtain ⟨items, s₃, hi, h⟩ := Run.bind_ok.mp h
  obtain ⟨converted, rfl⟩ := Run.ofExcept_ok.mp hi
  obtain ⟨grouped, rfl⟩ := Run.ofExcept_ok.mp h
  exact ⟨hydrated, items, fetched, converted, grouped⟩

/-- A lone batch attaches what its groups hold for the parents' keys. -/
theorem fetchBatches_ok {w : Run.Waiting} {t : Table} {keys : Plan.Batch}
    {children after : List Node} {objects : List (Fields Value)} {fetched : Fetched}
    (hk : t.batchKeys? = some keys) (below : Node.anyBatch children = false)
    (alone : Node.anyBatch after = false)
    (h : fetchBatches fl d w (.table t children :: after) objects s = (.ok fetched, s')) :
    ∃ items groups, Returned fl d t children (Batch.scope t objects) s items s' ∧
      groupValues t (Groups.ofItems keys.thisKey.fieldName items) = .ok (groups.getD []) ∧
      fetched = [(t, groups)] := by
  have batch : t.isBatch = true := by rw [t.isBatch_eq, hk, Option.isSome_some]
  have last : fetchBatches fl d w after objects = pure [] := by
    rw [← List.append_nil after, fetchBatches_append alone]
    rfl
  rw [fetchBatches, if_pos batch] at h
  obtain ⟨groups, s₁, ran, h⟩ := Run.beside_ok.mp h
  rw [last] at h
  obtain ⟨rest, s₂, hr, h⟩ := Run.bind_ok.mp h
  obtain ⟨rfl, rfl⟩ := Run.pure_ok.mp hr
  obtain ⟨rfl, rfl⟩ := Run.pure_ok.mp h
  unfold Returned
  split at ran
  · rename_i empty
    obtain ⟨rfl, rfl⟩ := Run.pure_ok.mp ran
    exact ⟨[], none, by rw [if_pos empty]; exact ⟨rfl, rfl⟩, rfl, rfl⟩
  · rename_i empty
    rw [below] at ran
    obtain ⟨made, s₃, got, ran⟩ := Run.bind_ok.mp ran
    obtain ⟨rfl, rfl⟩ := Run.pure_ok.mp ran
    obtain ⟨hydrated, items, fetched, converted, grouped⟩ := fetchGroups_ok hk got
    exact ⟨items, some made, by rw [if_neg empty]; exact ⟨hydrated, fetched, converted⟩, grouped, rfl⟩

theorem attachAll_singleton (t : Table) (groups : Option Groups) (objects : List (Fields Value)) :
    Batch.attachAll [(t, groups)] objects =
      objects.map (fun o => Fields.insert o t.fieldName (Batch.attach t groups o)) := rfl

/-- No group found and no statement issued come to the same for a parent. -/
theorem attach_getD (t : Table) (groups : Option Groups) (o : Fields Value) :
    Batch.attach t groups o = Batch.attach t (some (groups.getD [])) o := by
  cases groups with
  | some g => rfl
  | none =>
    have nothing (ks : List Key) : ks.filterMap (Groups.get? []) = [] := by
      simp [Groups.get?]
    simp only [Batch.attach, Option.getD_none, nothing]

/-- A batch that stands alone below a table splices its children into the objects of the table,
and changes nothing else in the values. -/
theorem complete_spliced {p t : Table} {keys : Plan.Batch} {before after children : List Node}
    {values values' : List Value} (hk : t.batchKeys? = some keys)
    (below : Node.anyBatch children = false) (alone : Node.anyBatch (before ++ after) = false)
    (h : onValues (complete fl d (.table p (before ++ .table t children :: after))) values s =
      (.ok values', s')) :
    ∃ (items : List Value) (attached : Fields Value → Value),
      Returned fl d t children (Batch.scope t (itemObjects values)) s items s' ∧
      (∀ o ∈ itemObjects values, Spliced t (childrenOf keys items) (parentKeys t o) (attached o)) ∧
      values' = values.map (mapObjects (fun o => Fields.insert o t.fieldName (attached o))) := by
  have apart : Node.anyBatch before = false ∧ Node.anyBatch after = false := by
    simp only [anyBatch_eq_false, List.mem_append] at alone ⊢
    exact ⟨fun c hc => alone c (.inl hc), fun c hc => alone c (.inr hc)⟩
  obtain ⟨objects, s₁, completed, h⟩ := Run.bind_ok.mp h
  obtain ⟨rfl, rfl⟩ := Run.pure_ok.mp h
  rw [complete] at completed
  obtain ⟨fetched, s₂, hf, joined⟩ := Run.bind_ok.mp completed
  rw [fetchBatches_append apart.1] at hf
  obtain ⟨items, groups, returned, grouped, rfl⟩ := fetchBatches_ok hk below apart.2 hf
  have outer : ∀ c ∈ before ++ .table t children :: after,
      c.isBatch ∨ c.hasBatchBelow = false := by
    intro c hc
    simp only [anyBatch_eq_false, List.mem_append] at alone
    rcases List.mem_append.mp hc with hb | hc
    · exact .inr (alone c (.inl hb)).2
    rcases List.mem_cons.mp hc with rfl | ha
    · exact .inl (by rw [Node.isBatch, t.isBatch_eq, hk, Option.isSome_some])
    · exact .inr (alone c (.inr ha)).2
  rw [runJoined_eq_pure outer] at joined
  obtain ⟨rfl, rfl⟩ := Run.pure_ok.mp joined
  refine ⟨items, Batch.attach t groups, returned, ?_, ?_⟩
  · intro o _
    rw [attach_getD]
    exact Batch.spliced_attach grouped o
  · have refilled := Value.refillItems_map
      (fun o => Fields.insert o t.fieldName (Batch.attach t groups o)) values []
    rw [List.append_nil, ← attachAll_singleton, Value.mapItems_eq_map] at refilled
    rw [refilled]

def shelf : Table where
  name := .ident "shelves"
  label := "shelves"
  fieldName := "shelves"
  arguments := ⟨[]⟩
  join := none
  junction := none
  batch := none
  filter := []
  orderBy := none
  sortKey := none
  paginate := false
  many := true
  location := ["Query", "shelves"]

def book : Table := { shelf with
  name := .ident "books"
  label := "books"
  fieldName := "books"
  batch := some ⟨⟨"shelf", "shelf", "shelf"⟩, ⟨"no", "no", "no"⟩⟩
  location := ["Query", "shelves", "books"] }

def bookColumns : List Node :=
  [.column ⟨.name "id", "id", "id", true, none, book.location⟩,
    .column ⟨.name "shelf", "shelf", "shelf", true, none, book.location⟩]

def bookOf (id shelf : Int64) : Value := .object [("id", .int id), ("shelf", .int shelf)]

/-- Answers every statement with the same books. -/
def library : Driver Unit where
  answer _ s := (.rows false ([bookOf 1 4, bookOf 2 7, bookOf 3 4].map (fun b =>
    ⟨.ok ⟨b.object?.getD []⟩, false⟩)), s)

/-- One shelf has two numbers, another is among the nodes of a page, and the last has none. -/
def shelves : List Value :=
  [.list [.object [("no", .list [.int 7, .null, .int 4])]],
    .connection [("c", .object [("no", .double (.ofInt 4))])] ⟨false, false, none, none⟩ none,
    .object [("no", .null)]]

def stockedShelves : List Value :=
  [.list [.object [("no", .list [.int 7, .null, .int 4]),
      ("books", .list [bookOf 2 7, bookOf 1 4, bookOf 3 4])]],
    .connection [("c", .object [("no", .double (.ofInt 4)),
      ("books", .list [bookOf 1 4, bookOf 3 4])])] ⟨false, false, none, none⟩ none,
    .object [("no", .null), ("books", .null)]]

theorem complete_spliced_shelves :
    ∃ (s' : Session Unit) (items : List Value) (attached : Fields Value → Value),
      onValues (complete .sqlite library (.table shelf [.table book bookColumns])) shelves
        ⟨(), false, []⟩ = (.ok stockedShelves, s') ∧
      Returned .sqlite library book bookColumns [.int 7, .int 4] ⟨(), false, []⟩ items s' ∧
      (∀ o ∈ itemObjects shelves, Spliced book
        (childrenOf ⟨⟨"shelf", "shelf", "shelf"⟩, ⟨"no", "no", "no"⟩⟩ items) (parentKeys book o)
        (attached o)) ∧
      stockedShelves =
        shelves.map (mapObjects (fun o => Fields.insert o "books" (attached o))) := by
  have ran : onValues (complete .sqlite library
      (.table shelf ([] ++ .table book bookColumns :: []))) shelves ⟨(), false, []⟩ =
      (.ok stockedShelves, _) := Prod.ext rfl rfl
  obtain ⟨items, attached, returned, spliced, stocked⟩ := complete_spliced rfl rfl rfl ran
  exact ⟨_, items, attached, ran, returned, spliced, stocked⟩

end Execution

end TreeQuery
