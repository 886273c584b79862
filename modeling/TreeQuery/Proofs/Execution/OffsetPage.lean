import TreeQuery.Proofs.Connection.Offset
import TreeQuery.Proofs.Connection.Trimmed
import TreeQuery.Proofs.Execution.KeysetWalk
import TreeQuery.Proofs.Plan.Counted

/-!
The pages of a root table by offset, from the arguments of the request to the connection. A page
shows the rows that stand at its positions, and a walk from page to page meets each row once.
-/

namespace TreeQuery

open Plan (Leaves Node OffsetPage Table totalColumn)
open Sql (Record upTo)

/-- A root table that is paged by an order alone. -/
structure Plan.Table.OffsetRoot (t : Table) (order : OrderBy) : Prop extends t.PagedRoot where
  sortKey : t.sortKey = none
  orderBy : t.orderBy = some order

namespace Plan.Table.OffsetRoot

variable {t : Table} {order : OrderBy}

theorem keyset? (root : t.OffsetRoot order) : t.keyset? = none := by
  rw [Table.keyset?, root.sortKey, root.junction]
  rfl

theorem offsetOrder? (root : t.OffsetRoot order) : t.offsetOrder? = some (order, t.label) := by
  rw [Table.offsetOrder?, root.orderBy]

theorem isOffsetPaginated (root : t.OffsetRoot order) : t.isOffsetPaginated = true := by
  rw [Table.isOffsetPaginated, root.paginate, root.keyset?, root.offsetOrder?]
  rfl

theorem batchKeys? (root : t.OffsetRoot order) : t.batchKeys? = none := by
  rw [Table.batchKeys?, Table.junctionBatch?, root.batch, root.junction]
  rfl

theorem paging (root : t.OffsetRoot order) {p : OffsetPage}
    (asked : t.offsetPage order t.label = .ok p) : t.paging = .ok (.offset p) := by
  rw [Table.paging, root.keyset?, root.offsetOrder?]
  simp only [asked]
  rfl

theorem withArguments (root : t.OffsetRoot order) (args : Arguments) :
    (t.withArguments args).OffsetRoot order :=
  ⟨⟨root.paginate, root.join, root.junction, root.batch⟩, root.sortKey, root.orderBy⟩

end Plan.Table.OffsetRoot

/-- A database answers the statement of a page with the rows that stand from its offset on, up to
its limit. -/
def Driver.Pages {σ : Type} (d : Driver σ) (fl : Sql.Flavor) (root : Node) (rows : List Record) :
    Prop :=
  ∀ st, Sql.statement fl root none = .ok st → ∀ p, st.part.tables = [.page p] → ∀ state,
    (d.answer (st.query fl) state).1 = .rows false
      ((upTo p.limit (rows.drop (p.offset.getD 0))).map (fun ρ => ⟨.ok (st.row fl ρ), false⟩))

/-- Rows of a table that have their own objects, each with the number of all of them. -/
structure Plan.Table.Counted (t : Table) (children : List Node) (fl : Sql.Flavor)
    (rows : List Record) : Prop where
  identified : ∀ ρ ∈ rows, (ρ (Plan.identityText fl t children)).key?.isSome
  distinct : (rows.map (fun ρ => (ρ (Plan.identityText fl t children)).key?)).Nodup
  total : ∀ ρ ∈ rows, ∀ n ∈ children, ∀ label, n.entry? = some (totalColumn, label) →
    ρ (n.sourceText fl t) = .int (Int64.ofNat rows.length)

/-- A walk from page to page, each one after the end of the one before, until there are no more. -/
inductive ForwardWalk {σ : Type}
    (ask : Option String → Session σ → Except Error Value × Session σ) :
    Option String → Session σ → List (String × Value) → Session σ → Prop
  | last {cursor : Option String} {s s' : Session σ} {edges : List (String × Value)}
      {info : PageInfo} {total : Option Int64}
      (page : ask cursor s = (.ok (.connection edges info total), s'))
      (done : info.hasNextPage = false) : ForwardWalk ask cursor s edges s'
  | next {cursor : Option String} {s s' s'' : Session σ} {edges later : List (String × Value)}
      {info : PageInfo} {total : Option Int64} {c : String}
      (page : ask cursor s = (.ok (.connection edges info total), s'))
      (more : info.hasNextPage = true) (boundary : info.endCursor = some c)
      (rest : ForwardWalk ask (some c) s' later s'') :
      ForwardWalk ask cursor s (edges ++ later) s''

section Walk

variable {σ : Type} {ask : Option String → Session σ → Except Error Value × Session σ}
variable {n : Nat} {nodes : List Value}

/-- Every request of a walk is answered with so many nodes from its position on. -/
def TilesWith (ask : Option String → Session σ → Except Error Value × Session σ) (n : Nat)
    (nodes : List Value) : Prop :=
  ∀ cursor offset, Cursor.Visited nodes.length cursor offset → ∀ s : Session σ,
    s.cancelled = false → ∃ s', s'.cancelled = false ∧
      ask cursor s = (.ok (Connection.pageFrom offset nodes.length
      ((nodes.drop offset).take n)), s')

/-- So a walk from a position on meets what stands from there on. -/
theorem forwardWalk_from (positive : 0 < n) (tiles : TilesWith ask n nodes)
    {cursor : Option String} {offset : Nat} (visited : Cursor.Visited nodes.length cursor offset)
    {s : Session σ} (live : s.cancelled = false) :
    ∃ s', ForwardWalk ask cursor s (Connection.numbered offset (nodes.drop offset)) s' := by
  induction hl : nodes.length - offset using Nat.strongRecOn generalizing cursor offset s with
  | ind left inductionHypothesis =>
    obtain ⟨s', live', page⟩ := tiles cursor offset visited s live
    by_cases more : offset + n < nodes.length
    · -- The page is full, and ends right before position `offset + n`.
      have full : ((nodes.drop offset).take n).length = n := by
        rw [List.length_take, List.length_drop]
        omega
      obtain ⟨before, v, parts⟩ : ∃ before v, (nodes.drop offset).take n = before ++ [v] := by
        refine ⟨_, _, (List.dropLast_append_getLast ?_).symm⟩
        exact List.ne_nil_of_length_pos (by omega)
      have size : before.length + 1 = n := by
        rw [← full, parts, List.length_append, List.length_singleton]
      have next : Cursor.Visited nodes.length (some (Cursor.ofOffset (offset + before.length)))
          (offset + n) := by
        rw [← size, ← Nat.add_assoc]
        exact .row (by omega)
      obtain ⟨s'', rest⟩ := inductionHypothesis _ (by omega) next live' rfl
      have last : (Connection.numbered offset ((nodes.drop offset).take n)).getLast?.map Prod.fst =
          some (Cursor.ofOffset (offset + before.length)) := by
        rw [parts, Connection.numbered_append, Connection.numbered, Connection.numbered,
          List.getLast?_concat]
        rfl
      have continues : decide (offset + ((nodes.drop offset).take n).length < nodes.length) = true :=
        decide_eq_true (by rw [full]; exact more)
      have walked := ForwardWalk.next page continues last rest
      rw [← List.drop_drop] at walked
      refine ⟨s'', ?_⟩
      have whole : nodes.drop offset =
          (nodes.drop offset).take n ++ (nodes.drop offset).drop n := (List.take_append_drop ..).symm
      rw [whole, Connection.numbered_append, full]
      exact walked
    · have all : (nodes.drop offset).take n = nodes.drop offset :=
        List.take_of_length_le (by rw [List.length_drop]; omega)
      rw [all] at page
      refine ⟨s', .last page (decide_eq_false ?_)⟩
      rw [List.length_drop]
      omega

end Walk

section Page

variable {Ctx σ : Type} {schema : Schema Ctx} {minify : Bool} {cx : Ctx} {x : Selection}
variable {d : Driver σ} {s : Session σ} {t : Table} {children : List Node} {order : OrderBy}
variable {fl : Sql.Flavor} {rows : List Record}

/-- A page by offset has a statement, which the flavor with window functions can write. -/
theorem Sql.statement_offsetRoot (root : t.OffsetRoot order) (leaves : Leaves children)
    {filtered : List Sql.Fragment × Params}
    (filters : (Sql.filter (.ofTable t.label) t.filter).run .empty = .ok filtered) {p : OffsetPage}
    (asked : t.offsetPage order t.label = .ok p) :
    ∃ st page, statement .postgresql (.table t children) none = .ok st ∧
      st.part.tables = [.page page] ∧ page.limit = p.first.map (· + 1) ∧
      page.offset = some p.offset := by
  have supported : checkSupport .postgresql t.location false (Plan.Paging.offset p).isOffset =
      .ok () := rfl
  obtain ⟨st, stated, _, tables, _⟩ := statement_pagedRoot root.toPagedRoot leaves
    (root.paging asked) supported filters (run_pure_ok.mpr ⟨rfl, rfl⟩)
  exact ⟨st, _, stated, tables, rfl, rfl⟩

/-- In the object of a row stands the number of all rows. -/
theorem Hydration.single_total (coherent : (Node.table t children).Everywhere Table.Coherent)
    (only : Plan.ColumnsOnly t children) {n : Node} (member : n ∈ children) (counts : n.IsTotal t)
    {st : Sql.Statement} (stated : Sql.statement fl (.table t children) none = .ok st)
    {fields : List (String × ShapeField)} (below : Shape.ofChildren "" [] children = .ok fields)
    (counted : t.Counted children fl rows) {ρ : Record} (row : ρ ∈ rows) :
    (single fl st (.mk fields) ρ).field? totalColumn =
      some (.int (Int64.ofNat rows.length)) := by
  obtain ⟨label, rfl⟩ := counts
  have present : (totalColumn, label) ∈ Node.entries children :=
    List.mem_filterMap.mpr ⟨_, member, rfl⟩
  obtain ⟨m, hm, label, entry, found, first⟩ := labelAt?_columnsOnly fl only below present
  have read := get?_of_first (s := .mk fields) coherent stated found first ρ []
  rw [counted.total ρ row m hm label entry] at read
  exact read

/-- Some of the rows become an object each. -/
theorem Plan.Table.Counted.objects (counted : t.Counted children fl rows)
    (coherent : (Node.table t children).Everywhere Table.Coherent)
    (only : Plan.ColumnsOnly t children) {st : Sql.Statement}
    (stated : Sql.statement fl (.table t children) none = .ok st)
    {fields : List (String × ShapeField)} (below : Shape.ofChildren "" [] children = .ok fields)
    {part : List Record} (sublist : part.Sublist rows) :
    Hydration.objects (.mk fields) (part.map (st.row fl)) =
      .ok (part.map (Hydration.single fl st (.mk fields))) := by
  obtain ⟨fields', label, shaped, below', identity, column⟩ := Hydration.shape_columnsOnly fl only
  cases below.symm.trans below'
  exact Hydration.objects_singles coherent stated shaped identity column
    (fun ρ hρ => counted.identified ρ (sublist.subset hρ))
    (counted.distinct.sublist (sublist.map _))

theorem execute_offsetPage {types : List (ObjectType Ctx)} {queryType : String}
    (built : Schema.build types queryType = .ok schema)
    (planned : schema.plan minify cx x = .ok (.table t children)) (root : t.OffsetRoot order)
    (leaves : Leaves children) {filtered : List Sql.Fragment × Params}
    (filters : (Sql.filter (.ofTable t.label) t.filter).run .empty = .ok filtered)
    {first : Option Nat} {after : Option String} (asks : t.AsksAfter first after) {offset : Nat}
    (opens : Cursor.Opens after offset) (small : rows.length < 2 ^ 63)
    (counted : t.Counted children .postgresql rows)
    (pages : d.Pages .postgresql (.table t children) rows) (live : s.cancelled = false) :
    ∃ fields st s', Shape.ofChildren "" [] children = .ok fields ∧
      Sql.statement .postgresql (.table t children) none = .ok st ∧ s'.cancelled = false ∧
      execute schema .postgresql minify cx d x s = (.ok (Connection.pageFrom offset rows.length
        ((upTo first (rows.drop offset)).map (fun ρ => Connection.withoutTotal
          (Hydration.single .postgresql st (.mk fields) ρ)))), s') := by
  have coherent := Plan.plan_coherent (Schema.valid_of_build built) planned
  have only := Plan.plan_columns leaves root.batchKeys? planned
  obtain ⟨n, member, counts⟩ := (Plan.plan_declared planned).1.counted root.isOffsetPaginated
  have asked : t.offsetPage order t.label = .ok ⟨order, t.label, first, offset⟩ :=
    (Table.offsetPage_asks asks).mpr ⟨offset, opens, rfl⟩
  obtain ⟨fields, _, shaped, below, _⟩ := Hydration.shape_columnsOnly .postgresql only
  obtain ⟨st, page, stated, tables, limit, start⟩ :=
    Sql.statement_offsetRoot root leaves filters asked
  have answered := pages st stated page tables s.driver
  rw [limit, start, Option.getD_some] at answered
  obtain ⟨s', fetched, live'⟩ := Execution.fetch_rows stated shaped live answered
    (counted.objects coherent only stated below
      ((Sql.upTo_sublist _ _).trans (List.drop_sublist _ _)))
  have window := Connection.ofOffset_window (p := ⟨order, t.label, first, offset⟩) small
    (fun ρ hρ => Hydration.single_total coherent only member counts stated below counted hρ)
  have made : Connection.ofItems t ((upTo (first.map (· + 1)) (rows.drop offset)).map
      (Hydration.single .postgresql st (.mk fields))) = .ok _ :=
    bind_eq_ok.mpr ⟨_, mapError_eq_ok.mpr (root.paging asked), congrArg Except.ok window⟩
  refine ⟨fields, st, s', below, stated, live', ?_⟩
  apply execute_run planned root.join leaves shaped
  exact Execution.run_columns leaves root.paginate fetched made

end Page

section Request

variable {Ctx σ : Type} {schema : Schema Ctx} {minify : Bool} {cx : Ctx}
variable {d : Driver σ} {t : Table} {children : List Node} {order : OrderBy} {rows : List Record}

theorem Plan.Table.Counted.withArguments {fl : Sql.Flavor} (counted : t.Counted children fl rows)
    (args : Arguments) : (t.withArguments args).Counted children fl rows where
  identified := by
    rw [Table.identityText_withArguments]
    exact counted.identified
  distinct := by
    rw [Table.identityText_withArguments]
    exact counted.distinct
  total := by
    intro ρ row n member label entry
    rw [Table.sourceText_withArguments]
    exact counted.total ρ row n member label entry

/-- Without arguments a page has all rows. -/
theorem Plan.Table.asksAfter_empty (t : Table) : (t.withArguments .empty).AsksAfter none none :=
  ⟨rfl, rfl, rfl, rfl⟩

/-- A page by offset shows the rows at its positions, each under the cursor of its own position, and
the pages that follow each other show every row once. -/
theorem execute_offset_pages {types : List (ObjectType Ctx)} {queryType : String}
    (built : Schema.build types queryType = .ok schema) {ι : Type} [Nonempty ι]
    {request : ι → Selection} {arguments : ι → Arguments} (planned : ∀ i,
      schema.plan minify cx (request i) = .ok (.table (t.withArguments (arguments i)) children))
    (root : t.OffsetRoot order) (leaves : Leaves children)
    {filtered : List Sql.Fragment × Params}
    (filters : (Sql.filter (.ofTable t.label) t.filter).run .empty = .ok filtered)
    (small : rows.length < 2 ^ 63) (counted : t.Counted children .postgresql rows)
    (pages : ∀ i, d.Pages .postgresql (.table (t.withArguments (arguments i)) children) rows) :
    ∃ shape node, Shape.ofNode "" (.table t children) = .ok shape ∧
      (∀ i st, Sql.statement .postgresql (.table (t.withArguments (arguments i)) children) none =
        .ok st → ∀ ρ ∈ rows, ∃ fields,
          Hydration.objects shape [st.row .postgresql ρ] = .ok [.object fields] ∧
          node ρ = .object (Fields.erase fields totalColumn)) ∧
      (∀ i first after offset, (t.withArguments (arguments i)).AsksAfter first after →
        Cursor.Opens after offset → ∀ s : Session σ, s.cancelled = false →
        ∃ edges info total s', execute schema .postgresql minify cx d (request i) s =
            (.ok (.connection edges info total), s') ∧
          edges.map Prod.snd = (upTo first (rows.drop offset)).map node ∧
          (∀ k e, edges[k]? = some e → Cursor.toOffset e.1 = .ok (offset + k)) ∧
          (info.hasNextPage = true ↔ offset + edges.length < rows.length) ∧
          (info.hasPreviousPage = true ↔ 0 < offset)) ∧
      ∀ n, 0 < n → ∀ next : Option String → ι,
        (∀ after offset, Cursor.Visited rows.length after offset →
          (t.withArguments (arguments (next after))).AsksAfter (some n) after) →
        ∀ s : Session σ, s.cancelled = false → ∃ edges s',
          ForwardWalk (fun after => execute schema .postgresql minify cx d
            (request (next after))) none s edges s' ∧
          edges.map Prod.snd = rows.map node := by
  have coherent (i : ι) := Plan.plan_coherent (Schema.valid_of_build built) (planned i)
  have only (i : ι) := Plan.plan_columns leaves (root.withArguments _).batchKeys? (planned i)
  obtain ⟨fields, _, shaped, below, _⟩ :=
    Hydration.shape_columnsOnly .postgresql (only (Classical.arbitrary ι))
  obtain ⟨st, _, stated, _⟩ := Sql.statement_offsetRoot (root.withArguments .empty) leaves filters
    ((Table.offsetPage_asks t.asksAfter_empty).mpr ⟨0, .start, rfl⟩)
  -- The statements of all pages select the same.
  have same {i : ι} {st' : Sql.Statement} (stated' : Sql.statement .postgresql
      (.table (t.withArguments (arguments i)) children) none = .ok st') :
      Hydration.single .postgresql st' (.mk fields) =
        Hydration.single .postgresql st (.mk fields) := by
    refine Hydration.single_congr ?_ _
    have bare : (Node.table (t.withArguments .empty) children).Everywhere Table.Coherent :=
      ⟨⟨(coherent i).1.related, (coherent i).1.paged⟩, (coherent i).2⟩
    rw [Sql.statement_items (coherent i) stated', Sql.statement_items bare stated]
    exact (Table.childItems_withArguments _ leaves _).trans
      (Table.childItems_withArguments .empty leaves _).symm
  let node (ρ : Record) : Value :=
    Connection.withoutTotal (Hydration.single .postgresql st (.mk fields) ρ)
  have page {i : ι} {first : Option Nat} {after : Option String} {offset : Nat}
      (asks : (t.withArguments (arguments i)).AsksAfter first after)
      (opens : Cursor.Opens after offset) {s : Session σ} (live : s.cancelled = false) :
      ∃ s', s'.cancelled = false ∧ execute schema .postgresql minify cx d (request i) s =
        (.ok (Connection.pageFrom offset rows.length
          ((upTo first (rows.drop offset)).map node)), s') := by
    obtain ⟨fields', st', s', below', stated', live', executed⟩ := execute_offsetPage built
      (planned i) (root.withArguments _) leaves filters asks opens small
      (counted.withArguments _) (pages i) live
    cases below.symm.trans below'
    rw [same stated'] at executed
    exact ⟨s', live', executed⟩
  refine ⟨.mk fields, node, Shape.ofNode_table_ok.mpr (Shape.ofNode_table_ok.mp shaped), ?_, ?_, ?_⟩
  · intro i st' stated' ρ hρ
    have single := (counted.withArguments _).objects (coherent i) (only i) stated' below
      (List.singleton_sublist.mpr hρ)
    rw [List.map_singleton, List.map_singleton, same stated'] at single
    exact ⟨_, single, rfl⟩
  · intro i first after offset asks opens s live
    obtain ⟨s', _, executed⟩ := page asks opens live
    refine ⟨_, _, _, s', executed, Connection.map_snd_numbered _ _, fun k e found => ?_, ?_, ?_⟩
    · rw [Connection.getElem?_numbered, List.getElem?_map, Option.map_map] at found
      obtain ⟨ρ, shown, rfl⟩ := Option.map_eq_some_iff.mp found
      obtain ⟨within, _⟩ := List.getElem?_eq_some_iff.mp shown
      have cut := (Sql.upTo_sublist first (rows.drop offset)).length_le
      rw [List.length_drop] at cut
      exact Cursor.toOffset_ofOffset (by omega)
    · rw [← List.length_map (f := Prod.snd), Connection.map_snd_numbered]
      exact decide_eq_true_iff
    · exact decide_eq_true_iff
  · intro n positive next asks s live
    have tiles : TilesWith (fun after => execute schema .postgresql minify cx d
        (request (next after))) n (rows.map node) := by
      intro cursor offset visited s live
      rw [List.length_map] at visited ⊢
      rw [← List.map_drop, ← List.map_take]
      exact page (asks cursor offset visited) (visited.opens small) live
    obtain ⟨s', walk⟩ := forwardWalk_from positive tiles .start live
    exact ⟨_, s', walk, Connection.map_snd_numbered _ _⟩

end Request

section Archive

def archiveFields : List (Field Unit) :=
  [{ plainField "books" (.object "Book" true) with
    orderBy := some (fun _ _ => [⟨"year", .ascending⟩])
    paginate := true }]

/-- Books, which have numbers on their shelves, a page at a time in the order of their years. -/
def archiveTypes : List (ObjectType Unit) :=
  [.ofFields "Query" none archiveFields,
    .ofFields "Book" (some ⟨.static (.ident "books"), ["shelf", "number"], [], none⟩)
      [plainField "year" .scalar]]

def archive : Schema Unit := ⟨archiveTypes, .ofFields "Query" none archiveFields⟩

theorem build_archive : Schema.build archiveTypes "Query" = .ok archive := by rfl

def archiveTable : Table := { booksTable .empty with
  orderBy := some [⟨"year", .ascending⟩]
  sortKey := none }

def archiveNodes : List Node :=
  [.composite ⟨["shelf", "number"], "shelf#number", ["Query", "books"]⟩,
    .column ⟨.expression (Sql.qualified "books" "$total"), "$total", "$total", false, none,
      ["Query", "books"]⟩,
    .column ⟨.name "year", "year", "year", false, none, ["Query", "books", "year"]⟩]

theorem plan_archive (args : Arguments) : archive.plan false () (booksRequest args) =
    .ok (.table (archiveTable.withArguments args) archiveNodes) := by rfl

theorem offsetRoot_archive : archiveTable.OffsetRoot [⟨"year", .ascending⟩] :=
  ⟨⟨rfl, rfl, rfl, rfl⟩, rfl, rfl⟩

theorem leaves_archive : Leaves archiveNodes := by simp [Leaves, archiveNodes, Node.table?]

/-- A book, and how many there are. -/
def archived (total shelf number year : Int64) : Record := fun source =>
  if source = Sql.qualified "books" "$total" then .int total else book shelf number year source

def archivedRow (ρ : Record) : Row :=
  ⟨[("shelf#number", ρ (Plan.identityText .postgresql archiveTable archiveNodes)),
    ("$total", ρ (Sql.qualified "books" "$total")), ("year", ρ (Sql.qualified "books" "year"))]⟩

/-- The cursor after which a page starts: without one, or that of a position. -/
def archiveCursor (i : Option (Fin 3)) : Option String := i.map (fun k => Cursor.ofOffset k.val)

/-- The arguments of a page of two. -/
def archiveArguments (i : Option (Fin 3)) : Arguments := pageArguments false 2 (archiveCursor i)

def archiveStart : Option (Fin 3) → Nat
  | none => 0
  | some k => k.val + 1

def archivePages : List (Option (Fin 3)) := [none, some 0, some 1, some 2]

theorem mem_archivePages (i : Option (Fin 3)) : i ∈ archivePages := by
  have positions : ∀ k : Fin 3, some k ∈ archivePages := by decide
  cases i with
  | none => exact List.mem_cons_self ..
  | some k => exact positions k

theorem visited_archive (i : Option (Fin 3)) :
    Cursor.Visited 3 (archiveCursor i) (archiveStart i) := by
  cases i with
  | none => exact .start
  | some k => exact .row k.isLt

theorem asksAfter_archive (i : Option (Fin 3)) :
    (archiveTable.withArguments (archiveArguments i)).AsksAfter (some 2) (archiveCursor i) := by
  cases i <;> exact ⟨rfl, rfl, rfl, rfl⟩

/-- The page that a walk asks for. -/
def archiveNext (after : Option String) : Option (Fin 3) :=
  (archivePages.find? (fun i => archiveCursor i = after)).join

theorem archiveCursor_next {after : Option String} {offset : Nat}
    (visited : Cursor.Visited 3 after offset) : archiveCursor (archiveNext after) = after := by
  have positions : ∀ k : Fin 3, archiveCursor (archiveNext (some (Cursor.ofOffset k.val))) =
      some (Cursor.ofOffset k.val) := by decide +kernel
  cases visited with
  | start => rfl
  | row within => exact positions ⟨_, within⟩

def archiveText (i : Option (Fin 3)) : Option String :=
  (Sql.compile .postgresql (.table (archiveTable.withArguments (archiveArguments i)) archiveNodes)
    none).toOption.map Sql.Query.sql

theorem find?_archivePages (i : Option (Fin 3)) :
    archivePages.find? (fun j => archiveText j = archiveText i) = some i := by
  have all : ∀ i ∈ archivePages,
      archivePages.find? (fun j => archiveText j = archiveText i) = some i := by decide +kernel
  exact all i (mem_archivePages i)

/-- A database that knows the statements of these pages. -/
def archiveDriver (books : List Record) : Driver Unit where
  answer q s :=
    let rows := match archivePages.find? (fun i => archiveText i = some q.sql) with
      | some i => (books.drop (archiveStart i)).take 3
      | none => []
    (.rows false (rows.map (fun ρ => ⟨.ok (archivedRow ρ), false⟩)), s)

theorem row_archive {args : Arguments} {st : Sql.Statement} (stated : Sql.statement .postgresql
      (.table (archiveTable.withArguments args) archiveNodes) none = .ok st) (ρ : Record) :
    st.row .postgresql ρ = archivedRow ρ := by
  have coherent := Plan.plan_coherent (Schema.valid_of_build build_archive) (plan_archive args)
  have items : st.part.items = Sql.childItems .postgresql archiveTable ["books"] archiveNodes :=
    (Sql.statement_items coherent stated).trans
      (Table.childItems_withArguments args leaves_archive _)
  have selected : st.part.selected .postgresql =
      Sql.childItems .postgresql archiveTable ["books"] archiveNodes := by
    rw [Sql.Part.selected, items]
    rfl
  rw [Sql.Statement.row, selected]
  rfl

theorem pages_archive (books : List Record) (i : Option (Fin 3)) :
    (archiveDriver books).Pages .postgresql
      (.table (archiveTable.withArguments (archiveArguments i)) archiveNodes) books := by
  intro st stated p tables state
  have small : 3 < 2 ^ 63 := by decide
  obtain ⟨st', page, stated', tables', limit, start⟩ := Sql.statement_offsetRoot
    (offsetRoot_archive.withArguments (archiveArguments i)) leaves_archive rfl
    ((Table.offsetPage_asks (asksAfter_archive i)).mpr
      ⟨_, (visited_archive i).opens small, rfl⟩)
  cases stated.symm.trans stated'
  cases tables.symm.trans tables'
  have text : archiveText i = some (st.query .postgresql).sql := by
    rw [archiveText, Sql.compile, stated]
    rfl
  have found := find?_archivePages i
  rw [text] at found
  have rows : st.row .postgresql = archivedRow := funext (row_archive stated)
  simp only [archiveDriver, found, limit, start, rows]
  rfl

def archivedBooks : List Record := [archived 3 1 1 1990, archived 3 1 2 2001, archived 3 2 1 2010]

theorem counted_archived {fl : Sql.Flavor} {books : List Record}
    (total : ∀ ρ ∈ books, ρ (Sql.qualified "books" "$total") =
      .int (Int64.ofNat books.length))
    (identified : ∀ ρ ∈ books, (ρ (Plan.identityText fl archiveTable archiveNodes)).key?.isSome)
    (distinct : (books.map
      (fun ρ => (ρ (Plan.identityText fl archiveTable archiveNodes)).key?)).Nodup) :
    archiveTable.Counted archiveNodes fl books where
  identified := identified
  distinct := distinct
  total := by
    intro ρ hρ n member label entry
    simp only [archiveNodes, List.mem_cons, List.not_mem_nil, or_false] at member
    rcases member with rfl | rfl | rfl
    · exact absurd (Prod.mk.inj (Option.some.inj entry)).1 (by decide)
    · have source : Node.sourceText fl archiveTable (.column ⟨.expression
          (Sql.qualified "books" "$total"), "$total", "$total", false, none, ["Query", "books"]⟩) =
          Sql.qualified "books" "$total" := by cases fl <;> rfl
      rw [source]
      exact total ρ hρ
    · exact absurd (Prod.mk.inj (Option.some.inj entry)).1 (by decide)

def archivedNode (shelf number year : Int64) : Value :=
  .object [("shelf#number", .text (Numeral.ofInt64 shelf ++ Numeral.ofInt64 number)),
    ("year", .int year)]

theorem objects_archived {shape : Shape}
    (shaped : Shape.ofNode "" (.table archiveTable archiveNodes) = .ok shape)
    (total shelf number year : Int64) :
    Hydration.objects shape [archivedRow (archived total shelf number year)] = .ok [.object
      [("shelf#number", .text (Numeral.ofInt64 shelf ++ Numeral.ofInt64 number)),
        ("$total", .int total), ("year", .int year)]] := by
  cases shaped
  rfl

/-- A walk over three books, two at a time. -/
theorem execute_offset_pages_archive : ∃ edges s',
    ForwardWalk (fun after => execute archive .postgresql false () (archiveDriver archivedBooks)
      (booksRequest (archiveArguments (archiveNext after)))) none ⟨(), false, []⟩ edges s' ∧
    edges.map Prod.snd = [archivedNode 1 1 1990, archivedNode 1 2 2001, archivedNode 2 1 2010] := by
  have counted : archiveTable.Counted archiveNodes .postgresql archivedBooks :=
    counted_archived (by simp [archivedBooks, archived]) (by decide +kernel) (by decide +kernel)
  obtain ⟨shape, node, shaped, nodes, _, walks⟩ := execute_offset_pages build_archive
    (fun i => plan_archive (archiveArguments i)) offsetRoot_archive leaves_archive rfl (by decide)
    counted (pages_archive archivedBooks)
  obtain ⟨edges, s', walk, shown⟩ := walks 2 Nat.zero_lt_two archiveNext (by
    intro after offset visited
    have asks := asksAfter_archive (archiveNext after)
    rwa [archiveCursor_next visited] at asks) ⟨(), false, []⟩ rfl
  obtain ⟨st, _, stated, _⟩ := Sql.statement_offsetRoot
    (offsetRoot_archive.withArguments (archiveArguments none)) leaves_archive rfl
    ((Table.offsetPage_asks (asksAfter_archive none)).mpr ⟨0, .start, rfl⟩)
  have read (shelf number year : Int64) (member : archived 3 shelf number year ∈ archivedBooks) :
      node (archived 3 shelf number year) = archivedNode shelf number year := by
    obtain ⟨fields, hydrated, kept⟩ := nodes none st stated _ member
    rw [row_archive stated, objects_archived shaped] at hydrated
    cases hydrated
    exact kept
  refine ⟨edges, s', walk, shown.trans ?_⟩
  simp only [archivedBooks, List.map_cons, List.map_nil]
  rw [read 1 1 1990 (by simp [archivedBooks]), read 1 2 2001 (by simp [archivedBooks]),
    read 2 1 2010 (by simp [archivedBooks])]

/-- The eleventh book on the first shelf, and the first one on the eleventh. -/
def archivedFolded : List Record := [archived 2 1 11 1990, archived 2 11 1 2001]

/-- A database that holds these two, of which every page of two shows both. -/
def foldedDriver : Driver Unit where
  answer _ s := (.rows false (archivedFolded.map (fun ρ => ⟨.ok (archivedRow ρ), false⟩)), s)

theorem pages_folded : foldedDriver.Pages .postgresql
    (.table (archiveTable.withArguments (archiveArguments none)) archiveNodes) archivedFolded := by
  intro st stated p tables state
  obtain ⟨st', page, stated', tables', limit, start⟩ := Sql.statement_offsetRoot
    (offsetRoot_archive.withArguments (archiveArguments none)) leaves_archive rfl
    ((Table.offsetPage_asks (asksAfter_archive none)).mpr ⟨0, .start, rfl⟩)
  cases stated.symm.trans stated'
  cases tables.symm.trans tables'
  have rows : st.row .postgresql = archivedRow := funext (row_archive stated)
  simp only [foldedDriver, limit, start, rows]
  rfl

/-- Keys of their own are not enough for two books to be shown. -/
theorem execute_offset_page_folds_books :
    (archivedFolded.map (fun ρ => [(ρ (Sql.qualified "books" "shelf")).key?,
      (ρ (Sql.qualified "books" "number")).key?])).Nodup ∧
    foldedDriver.Pages .postgresql
      (.table (archiveTable.withArguments (archiveArguments none)) archiveNodes) archivedFolded ∧
    ∃ edge info s', execute archive .postgresql false () foldedDriver
      (booksRequest (archiveArguments none)) ⟨(), false, []⟩ =
        (.ok (.connection [edge] info (some 2)), s') :=
  ⟨by decide +kernel, pages_folded, _, _, _, Prod.ext rfl rfl⟩

end Archive

end TreeQuery
