import Mathlib.Data.List.Find
import TreeQuery.Proofs.Batch.Splicing
import TreeQuery.Proofs.Connection.Cursors
import TreeQuery.Proofs.Execution.OffsetPage
import TreeQuery.Proofs.Hydration.Links

/-!
The number of all rows, as a page by offset tells it. It comes with the rows of the page, and so it
is known only if the page starts before their end. Behind it a page tells of none at all, or, for a
parent whose rows were fetched in a batch, tells nothing.
-/

namespace TreeQuery

open Plan (Node Table totalColumn)

namespace Plan

/-- The rows that a page from an offset on has, of so many rows altogether: each has this number in
the column for it, and there are such if the page starts before the end. -/
structure Window (nodes : List Node) (path : String) (offset count : Nat) (rows : List Row) :
    Prop where
  counted : ∀ r ∈ rows, ∀ n ∈ nodes, ∀ label, n.labelFor? totalColumn = some label →
    r.value (path ++ label) = .int (Int64.ofNat count)
  shown : rows ≠ [] ↔ offset < count

/-- Of the columns for the number of rows the first one is read, unless a table is joined under
their name. -/
theorem Table.Declared.labelAt?_total {Ctx : Type} {schema : Schema Ctx} {cx : Ctx} {p : Table}
    {nodes : List Node} (declared : p.Declared schema cx nodes)
    (offset : p.isOffsetPaginated = true) (untouched : totalColumn ∉ Node.joinedNames nodes)
    {path : String} {fields : List (String × ShapeField)}
    (shaped : Shape.ofChildren path [] nodes = .ok fields) :
    ∃ n ∈ nodes, ∃ label, n.labelFor? totalColumn = some label ∧
      Shape.labelAt? fields totalColumn = some (some (path ++ label)) := by
  obtain ⟨_, member, label, rfl⟩ := declared.counted offset
  obtain ⟨first, found⟩ : ∃ first, Node.firstLabel? nodes totalColumn = some first := by
    apply Option.isSome_iff_exists.mp
    rw [Node.firstLabel?, List.findSome?_isSome_iff]
    exact ⟨_, member, by rw [Node.labelFor?, if_pos rfl]; rfl⟩
  obtain ⟨n, among, named⟩ := List.exists_of_findSome?_eq_some found
  refine ⟨n, among, first, named, ?_⟩
  rw [Shape.labelAt?_ofChildren _ shaped, if_neg untouched, found]
  rfl

end Plan

namespace Connection

theorem ofItems_total {p : Table} {page : Plan.OffsetPage} (asked : p.paging = .ok (.offset page))
    {items : List Value} {v : Value} (made : ofItems p items = .ok v) :
    ∃ edges info, v = .connection edges info (some (total items)) := by
  rw [ofItems, asked] at made
  cases made
  exact ⟨_, _, rfl⟩

end Connection

namespace Hydration

section Covers

variable {s : Shape} {rows : List Row} {items : List Value}

/-- Some rows become objects, each of them from one row or more, and there are objects if there are
rows. -/
structure Covers (s : Shape) (rows : List Row) (items : List Value) : Prop where
  own : ∀ v ∈ items, ∃ r ∈ rows, ∃ rest, v = objectOf s (r :: rest)
  nil_iff : items = [] ↔ rows = []

theorem covers_distinct {β : Type} [DecidableEq β] {f : Row → β} {own : β → List Row}
    (within : ∀ r ∈ rows, r ∈ own (f r)) (among : ∀ r ∈ rows, own (f r) ⊆ rows) :
    Covers s rows ((distinct (rows.map f)).map (fun b => objectOf s (own b))) where
  own v member := by
    obtain ⟨b, present, rfl⟩ := List.mem_map.mp member
    obtain ⟨r, here, rfl⟩ := List.mem_map.mp (mem_distinct.mp present)
    obtain ⟨first, rest, same⟩ := List.exists_cons_of_ne_nil (List.ne_nil_of_mem (within r here))
    exact ⟨first, among r here (same ▸ List.mem_cons_self ..), rest, by rw [same]⟩
  nil_iff := by
    rw [List.map_eq_nil_iff, List.eq_nil_iff_forall_not_mem, List.eq_nil_iff_forall_not_mem]
    simp

/-- The objects of a page tell the number of rows that its rows have, if it has any. -/
theorem Covers.total {nodes : List Node} {path label : String} {offset count : Nat}
    {converted : List Value} (covers : Covers s rows items)
    (window : Plan.Window nodes path offset count rows) {n : Node} (member : n ∈ nodes)
    (named : n.labelFor? totalColumn = some label)
    (read : Shape.labelAt? s.fields totalColumn = some (some (path ++ label)))
    (untouched : totalColumn ∉ Node.joinedNames nodes)
    (ran : items.mapM (Connection.convertChildren nodes) = .ok converted) :
    Connection.total converted = if offset < count then Int64.ofNat count else 0 := by
  have counted (w : Value) (among : w ∈ converted) :
      w.field? totalColumn = some (.int (Int64.ofNat count)) := by
    obtain ⟨v, present, made⟩ := (mem_of_mapM_ok ran).mp among
    obtain ⟨r, here, rest, rfl⟩ := covers.own v present
    obtain ⟨o, rfl, kept⟩ := Connection.convertChildren_get? untouched made
    have cell := field?_objectOf read r rest
    rw [window.counted r here n member label named] at cell
    exact kept.trans cell
  refine Connection.total_eq counted ?_
  rw [← window.shown, Ne, eq_nil_of_mapM_ok ran, covers.nil_iff]

end Covers

/-- What the pages of a table tell about the number of its rows. -/
structure TellsTotals (p : Table) (nodes : List Node) (s : Shape) (path key : String)
    (link : Option String) (offset : Nat) : Prop where
  /-- At the root or joined, a page tells the number of the rows that its parent has, or nought if it
  starts behind them. -/
  joined : link = none → ∀ rows count, Carry rows s.labels →
    Plan.Window nodes path offset count (rows.filter (fun r => (r.keyAt key).isSome)) →
    ∃ items, objects s rows = .ok items ∧
      ∀ v, Connection.convert (.table p nodes) (.list items) = .ok v → ∃ edges info,
        v = .connection edges info (some (if offset < count then Int64.ofNat count else 0))
  /-- In a batch, it tells the number of the rows with the first of its parent's keys whose rows the
  page does not start behind, and tells none if there is no such key. -/
  linked : ∀ keys l, p.batchKeys? = some keys → link = some l →
    keys.thisKey.fieldName ∉ Node.joinedNames nodes → ∀ rows (scope : List Key) (count : Key → Nat),
    Carry rows s.labels → (∀ k ∈ scope,
      Plan.Window nodes path offset (count k) (rows.filter (fun r => r.keyAt l = some k))) →
    ∃ items, objects s rows = .ok items ∧ ∀ converted groups,
      items.mapM (Connection.convertChildren nodes) = .ok converted →
      Execution.groupValues p (Groups.ofItems keys.thisKey.fieldName converted) = .ok groups →
      ∀ o, Batch.parentKeys p o ⊆ scope → ∃ edges info, Batch.attach p (some groups) o =
        .connection edges info (((Batch.parentKeys p o).find? (fun k => offset < count k)).map
          (fun k => Int64.ofNat (count k)))
  /-- Nor does it if no parent has a key, so that there is no statement. -/
  unfetched : ∀ o, Batch.attach p none o = .emptyConnection

section Tells

variable {p : Table} {nodes : List Node} {s : Shape} {path key label : String} {n : Node}
variable {link : Option String} {page : Plan.OffsetPage}

/-- Converted objects are handed over by the keys that they had before. -/
theorem itemKey?_convertChildren {name : String} (untouched : name ∉ Node.joinedNames nodes)
    {v w : Value} (object : ∃ o, v = .object o)
    (made : Connection.convertChildren nodes v = .ok w) :
    Groups.itemKey? name w = Groups.itemKey? name v := by
  obtain ⟨o, rfl⟩ := object
  obtain ⟨o', rfl, kept⟩ := Connection.convertChildren_get? untouched made
  exact congrArg (fun v => (v.map Value.normalize).bind Value.key?) kept

theorem FoldsBy.covers_joined (folds : FoldsBy p nodes s key none) {rows : List Row}
    (carry : Carry rows s.labels) : ∃ items, objects s rows = .ok items ∧
      Covers s (rows.filter (fun r => (r.keyAt key).isSome)) items := by
  refine ⟨_, folds.joined rfl rows carry, covers_distinct (fun r member => ?_) ?_⟩
  · simpa using List.mem_of_mem_filter member
  · intro r member r' alike
    obtain ⟨here, same⟩ := List.mem_filter.mp alike
    refine List.mem_filter.mpr ⟨here, ?_⟩
    rw [of_decide_eq_true same]
    exact (List.mem_filter.mp member).2

theorem FoldsBy.covers_linked {l : String} (folds : FoldsBy p nodes s key (some l))
    {keys : Plan.Batch} (batch : p.batchKeys? = some keys)
    (apart : keys.thisKey.fieldName ∉ Node.joinedNames nodes) {rows : List Row}
    (carry : Carry rows s.labels) : ∃ items, objects s rows = .ok items ∧
      (∀ v ∈ items, ∃ o, v = .object o) ∧ ∀ k, Covers s (rows.filter (fun r => r.keyAt l = some k))
        (Batch.childrenOf keys items k) := by
  obtain ⟨items, hydrated, linked⟩ := folds.linked keys l batch rfl apart rows carry
  refine ⟨items, hydrated, fun v member => ?_, fun k => ?_⟩
  · cases (objects_eq s carry).symm.trans hydrated
    rw [values_eq] at member
    obtain ⟨g, _, rfl⟩ := List.mem_map.mp member
    exact ⟨_, rfl⟩
  · rw [Batch.childrenOf, linked k]
    refine covers_distinct (fun r member => ?_) (fun r member r' alike => ?_)
    · simpa using List.mem_filter.mp member
    · obtain ⟨here, same⟩ := List.mem_filter.mp alike
      exact List.mem_filter.mpr ⟨here, decide_eq_true (of_decide_eq_true same).1⟩

theorem FoldsBy.tellsTotals (folds : FoldsBy p nodes s key link) (many : p.many)
    (paged : p.paginate) (asked : p.paging = .ok (.offset page))
    (untouched : totalColumn ∉ Node.joinedNames nodes) (member : n ∈ nodes)
    (named : n.labelFor? totalColumn = some label)
    (read : Shape.labelAt? s.fields totalColumn = some (some (path ++ label))) :
    TellsTotals p nodes s path key link page.offset where
  joined alone rows count carry window := by
    subst alone
    obtain ⟨items, hydrated, covers⟩ := folds.covers_joined carry
    refine ⟨items, hydrated, fun v made => ?_⟩
    obtain ⟨converted, ran, made⟩ := bind_eq_ok.mp made
    rw [if_pos paged] at made
    obtain ⟨edges, info, rfl⟩ := Connection.ofItems_total asked made
    exact ⟨edges, info, by rw [covers.total window member named read untouched ran]⟩
  linked keys l batch linked apart rows scope count carry windows := by
    subst linked
    obtain ⟨items, hydrated, objects, covers⟩ := folds.covers_linked batch apart carry
    refine ⟨items, hydrated, fun converted groups ran grouped o needed => ?_⟩
    -- The children for a key tell how many rows it has.
    have part (k : Key) : (Batch.childrenOf keys items k).mapM (Connection.convertChildren nodes) =
        .ok (Batch.childrenOf keys converted k) :=
      filter_of_mapM_ok ran (fun v here w made => by
        rw [itemKey?_convertChildren apart (objects v here) made])
    have total (k : Key) (among : k ∈ Batch.parentKeys p o) :=
      (covers k).total (windows k (needed among)) member named read untouched (part k)
    have shown (k : Key) (among : k ∈ Batch.parentKeys p o) :
        (!(Batch.childrenOf keys converted k).isEmpty) = decide (page.offset < count k) := by
      rw [Bool.eq_iff_iff, Bool.not_eq_true', decide_eq_true_iff, ← (windows k (needed among)).shown,
        List.isEmpty_eq_false_iff, ne_eq, eq_nil_of_mapM_ok (part k), (covers k).nil_iff]
    have spliced := (Batch.spliced_attach grouped o).page many paged
    rw [List.find?_congr shown] at spliced
    split at spliced
    · rename_i k found
      obtain ⟨edges, info, attached⟩ := Connection.ofItems_total asked spliced.1
      refine ⟨edges, info, ?_⟩
      rw [attached, found, total k (List.mem_of_find?_eq_some found),
        if_pos (of_decide_eq_true
          (List.find?_some (p := fun k => decide (page.offset < count k)) found))]
      rfl
    · rename_i missing
      rw [missing]
      exact ⟨_, _, spliced⟩
  unfetched o := by
    simp [Batch.attach, many, paged]

end Tells

end Hydration

section Request

variable {Ctx : Type} {schema : Schema Ctx} {minify : Bool} {cx : Ctx} {x : Selection}

/-- Every table of a plan that is read in pages by offset, however it is reached, has a shape, and its
pages tell the number of its rows in this way and in no other. -/
theorem plan_totals {types : List (ObjectType Ctx)} {queryType : String}
    (built : Schema.build types queryType = .ok schema) {root : Node}
    (planned : schema.plan minify cx x = .ok root) :
    root.Everywhere (fun p nodes => p.isOffsetPaginated = true →
      totalColumn ∉ Node.joinedNames nodes → ∀ page, p.paging = .ok (.offset page) →
      (p.linkLabel? nodes).isSome = p.isBatch ∧ ∀ path, ∃ s u,
        Shape.ofNode path (.table p nodes) = .ok s ∧ Node.uniqueLabel? nodes = some u ∧
        Hydration.TellsTotals p nodes s path (path ++ u) ((p.linkLabel? nodes).map (path ++ ·))
          page.offset) := by
  have declared := Plan.everywhere_subtrees root (Plan.plan_declared planned)
  have coherent := Plan.plan_coherent (Schema.valid_of_build built) planned
  refine Node.everywhere_mono (fun p nodes here offset untouched page asked => ?_) root
    (Node.everywhere_and root declared coherent)
  obtain ⟨declared, coherent⟩ := here
  have headed := Node.everywhere_mono (fun _ _ declared => declared.headed) (.table p nodes) declared
  have paged : p.paginate := by
    rw [Table.isOffsetPaginated, Bool.and_eq_true, Bool.and_eq_true] at offset
    exact offset.1.1
  refine ⟨headed.1.isSome_linkLabel?, fun path => ?_⟩
  obtain ⟨s, shaped⟩ := Plan.shaped_of_headed (.table p nodes) headed rfl path
  obtain ⟨u, unique, folds⟩ := Hydration.foldsBy_of_headed headed.1 shaped
  obtain ⟨fields, below, _, rfl⟩ := Shape.ofNode_table_ok.mp shaped
  obtain ⟨n, member, label, named, read⟩ := declared.1.labelAt?_total offset untouched below
  exact ⟨_, u, shaped, unique,
    folds.tellsTotals (coherent.paged paged) paged asked untouched member named read⟩

end Request

section Catalogue

/-- Variants of a product, which are fetched in a batch or joined, a page at a time. -/
def variantsField (batched : Bool) : Field Unit :=
  { plainField "variants" (.object "Variant" true) with
    join := if batched then none else some (fun _ _ => equates "id" "productId")
    batch := if batched then some ⟨"productId", "id"⟩ else none
    orderBy := some (fun _ _ => [⟨"id", .ascending⟩])
    paginate := true }

def catalogueTypes (batched : Bool) : List (ObjectType Unit) :=
  [.ofFields "Query" none queryFields,
    .ofFields "Product" (some (tableOf "products" "id"))
      [plainField "id" .scalar, variantsField batched],
    .ofFields "Variant" (some (tableOf "variants" "id")) [plainField "id" .scalar]]

def catalogue (batched : Bool) : Schema Unit :=
  ⟨catalogueTypes batched, .ofFields "Query" none queryFields⟩

theorem build_catalogue (batched : Bool) :
    Schema.build (catalogueTypes batched) "Query" = .ok (catalogue batched) := by
  cases batched <;> rfl

def variantPages : Selection :=
  ⟨"products", none, .empty, [⟨"variants", none, .empty,
    [⟨"edges", none, .empty, [⟨"node", none, .empty, [.leaf "id" none]⟩]⟩]⟩]⟩

def variantBatch : Plan.Batch := ⟨⟨"productId", "productId", "productId"⟩, ⟨"id", "id", "id"⟩⟩

def batchedVariants : Table := { productsTable with
  name := .ident "variants"
  label := "variants"
  fieldName := "variants"
  batch := some variantBatch
  orderBy := some [⟨"id", .ascending⟩]
  paginate := true
  location := ["Query", "products", "variants"] }

def pagedVariantNodes : List Node :=
  [.column ⟨.name "id", "id", "id", true, none, batchedVariants.location⟩,
    .column ⟨.expression (Sql.qualified "variants" "$total"), "$total", "$total", false, none,
      batchedVariants.location⟩,
    .column ⟨.name "productId", "productId", "productId", true, none, batchedVariants.location⟩,
    .column ⟨.name "id", "id", "id", false, none, batchedVariants.location ++ ["id"]⟩]

theorem plan_variantPages : (catalogue true).plan false () variantPages =
    .ok (.table productsTable
      [.column ⟨.name "id", "id", "id", true, none, productsTable.location⟩,
        .table batchedVariants pagedVariantNodes]) := by rfl

/-- The only variant of product 1, as the statement of the batch has it. -/
def catalogueRow : Row := ⟨[("id", .int 10), ("$total", .int 1), ("productId", .int 1)]⟩

/-- Product 1 has a variant, and product 2 has none. -/
def variantCount (k : Key) : Nat := if k = .int 1 then 1 else 0

theorem window_variants : ∀ k ∈ [Key.int 1, Key.int 2], Plan.Window pagedVariantNodes "" 0
    (variantCount k) ([catalogueRow].filter (fun r => r.keyAt "productId" = some k)) := by
  refine List.forall_mem_cons.mpr ⟨⟨?_, by decide⟩, List.forall_mem_singleton.mpr ⟨?_, by decide⟩⟩
  · intro r here n member label named
    obtain rfl : r = catalogueRow := List.mem_singleton.mp (List.mem_of_mem_filter here)
    have columns : ∀ n ∈ pagedVariantNodes, ∀ label, n.labelFor? totalColumn = some label →
        label = "$total" := by
      simp [pagedVariantNodes, Node.labelFor?, totalColumn, eq_comm]
    rw [columns n member label named]
    rfl
  · intro r member
    exact absurd member (List.not_mem_nil)

theorem plan_totals_catalogue : ∃ s items converted groups,
    Shape.ofNode "" (.table batchedVariants pagedVariantNodes) = .ok s ∧
    Hydration.objects s [catalogueRow] = .ok items ∧
    items.mapM (Connection.convertChildren pagedVariantNodes) = .ok converted ∧
    Execution.groupValues batchedVariants (Groups.ofItems "productId" converted) = .ok groups ∧
    (∃ edges info, Batch.attach batchedVariants (some groups) [("id", .int 1)] =
      .connection edges info (some 1)) ∧
    ∃ edges info, Batch.attach batchedVariants (some groups) [("id", .int 2)] =
      .connection edges info none := by
  obtain ⟨_, tells⟩ := (plan_totals (build_catalogue true) plan_variantPages).2.2.1.1 rfl
    (by decide) ⟨_, _, none, 0⟩ rfl
  obtain ⟨s, u, shaped, unique, tells⟩ := tells ""
  cases unique
  have carry : Hydration.Carry [catalogueRow] s.labels := by
    cases shaped
    exact List.forall_mem_singleton.mpr (by decide)
  obtain ⟨items, hydrated, told⟩ := tells.linked variantBatch _ rfl rfl (by decide) [catalogueRow]
    [.int 1, .int 2] variantCount carry window_variants
  cases shaped
  cases hydrated
  have one := told _ _ rfl rfl [("id", .int 1)] (by decide)
  have two := told _ _ rfl rfl [("id", .int 2)] (by decide)
  exact ⟨_, _, _, _, rfl, rfl, rfl, rfl, one, two⟩

/-- A database with these products and variants, which answers with rows of products first. -/
def catalogueDriver : Driver Nat where
  answer _ n := (.rows false ((if n = 0 then
      [⟨[("id", .int 1), ("variants__id", .int 10), ("variants__$total", .int 1)]⟩,
        ⟨[("id", .int 2), ("variants__id", .null), ("variants__$total", .null)]⟩]
    else [catalogueRow]).map (fun r => ⟨.ok r, false⟩)), n + 1)

/-- A database for the last page of the archive, behind the last book. -/
def behindDriver : Driver Unit where
  answer _ s := (.rows false [], s)

theorem pages_behind : behindDriver.Pages .postgresql
    (.table (archiveTable.withArguments (archiveArguments (some 2))) archiveNodes)
    archivedBooks := by
  intro st stated p tables state
  obtain ⟨st', page, stated', tables', limit, start⟩ := Sql.statement_offsetRoot
    (offsetRoot_archive.withArguments (archiveArguments (some 2))) leaves_archive rfl
    ((Table.offsetPage_asks (asksAfter_archive (some 2))).mpr
      ⟨_, (visited_archive (some 2)).opens (by decide), rfl⟩)
  cases stated.symm.trans stated'
  cases tables.symm.trans tables'
  simp only [behindDriver, limit, start]
  rfl

theorem execute_behind : ∃ s', execute archive .postgresql false () behindDriver
    (booksRequest (archiveArguments (some 2))) ⟨(), false, []⟩ =
      (.ok (.connection [] ⟨false, true, none, none⟩ (some 0)), s') := by
  have counted : archiveTable.Counted archiveNodes .postgresql archivedBooks :=
    counted_archived (by simp [archivedBooks, archived]) (by decide +kernel) (by decide +kernel)
  have live : Session.cancelled ⟨(), false, []⟩ = false := rfl
  obtain ⟨_, _, s', _, _, _, executed⟩ := execute_offsetPage build_archive
    (plan_archive (archiveArguments (some 2))) (offsetRoot_archive.withArguments _) leaves_archive
    rfl (asksAfter_archive (some 2)) ((visited_archive (some 2)).opens (by decide)) (by decide)
    (counted.withArguments _) pages_behind live
  exact ⟨s', executed⟩

/-- The product without variants is told that there are none if the variants are joined, and is not
told anything if they are fetched in a batch. Behind three books a page tells that there are none. -/
theorem totals_lost_catalogue :
    (Schema.build (catalogueTypes false) "Query" = .ok (catalogue false) ∧ ∃ o s',
      execute (catalogue false) .postgresql false () catalogueDriver variantPages
          ⟨0, false, []⟩ = (.ok (.list [o, .object [("id", .int 2),
        ("variants", .connection [] ⟨false, false, none, none⟩ (some 0))]]), s')) ∧
    (Schema.build (catalogueTypes true) "Query" = .ok (catalogue true) ∧ ∃ o s',
      execute (catalogue true) .postgresql false () catalogueDriver variantPages
          ⟨0, false, []⟩ = (.ok (.list [o, .object [("id", .int 2),
        ("variants", .connection [] ⟨false, false, none, none⟩ none)]]), s')) ∧
    archivedBooks.length = 3 ∧ behindDriver.Pages .postgresql
      (.table (archiveTable.withArguments (archiveArguments (some 2))) archiveNodes)
      archivedBooks ∧ ∃ s', execute archive .postgresql false () behindDriver
        (booksRequest (archiveArguments (some 2))) ⟨(), false, []⟩ =
          (.ok (.connection [] ⟨false, true, none, none⟩ (some 0)), s') :=
  ⟨⟨build_catalogue false, _, _, Prod.ext rfl rfl⟩, ⟨build_catalogue true, _, _, Prod.ext rfl rfl⟩,
    rfl, pages_behind, execute_behind⟩

end Catalogue

end TreeQuery
