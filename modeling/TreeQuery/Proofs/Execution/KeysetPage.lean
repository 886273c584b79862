import TreeQuery.Execution
import TreeQuery.Proofs.Cursor
import TreeQuery.Proofs.Hydration.Singles
import TreeQuery.Proofs.Session
import TreeQuery.Proofs.Sql.KeysetRoot

/-!
A page of a root table by its sort key, from the arguments of the request to the connection. The
statement takes one row more than the page shows, in the order in which the page is read, and the
page puts the rows back into the order that is declared.
-/

namespace TreeQuery

open Plan (ColumnsOnly KeysetPage Leaves Node Table)
open Sql (ColumnOrder Record qualified)

/-- A database that holds the rows of a table answers the table's statement with the rows that it
returns. -/
def Driver.Serves {σ : Type} (d : Driver σ) (fl : Sql.Flavor) (order : ColumnOrder) (root : Node)
    (table : List Record) : Prop :=
  ∀ st, Sql.statement fl root none = .ok st → ∀ state, ∃ result, st.Returns order table result ∧
    (d.answer (st.query fl) state).1 =
      .rows false (result.map (fun ρ => ⟨.ok (st.row fl ρ), false⟩))

/-- Rows of a table that have their own objects and, none of it null, their own places in the order
of a sort key. -/
structure Plan.Table.Keyed (t : Table) (children : List Node) (fl : Sql.Flavor)
    (order : ColumnOrder) (key : SortKey) (table : List Record) : Prop where
  cells : ∀ ρ ∈ table, ∀ o ∈ key.terms t.label, (ρ o.source).isNull = false
  separate : order.Separates (key.terms t.label) table
  identified : ∀ ρ ∈ table, (ρ (Plan.identityText fl t children)).key?.isSome
  distinct : (table.map (fun ρ => (ρ (Plan.identityText fl t children)).key?)).Nodup

section Leaves

variable {nodes : List Node}

theorem Connection.convertChildren_leaves (leaves : Leaves nodes) (v : Value) :
    convertChildren nodes v = .ok v :=
  Plan.leaves_induction (P := fun nodes => convertChildren nodes v = .ok v) rfl
    (fun _ _ later => later) (fun _ _ later => later) (fun _ _ _ later => later) leaves

theorem Shape.checkBatches_leaves (leaves : Leaves nodes) : checkBatches nodes = .ok () :=
  Plan.leaves_induction (P := fun nodes => checkBatches nodes = .ok ()) rfl
    (fun _ _ later => later) (fun _ _ later => later) (fun _ _ _ later => later) leaves

theorem Plan.Node.anyBatch_leaves (leaves : Leaves nodes) : anyBatch nodes = false :=
  Plan.leaves_induction (P := fun nodes => anyBatch nodes = false) rfl
    (fun _ _ later => later) (fun _ _ later => later) (fun _ _ _ later => later) leaves

end Leaves

section Page

variable {p : KeysetPage}

theorem Plan.KeysetPage.map_read {α β : Type} (p : KeysetPage) (f : α → β) (rows : List α) :
    (p.read rows).map f = p.read (rows.map f) := by
  rw [read, read]
  cases p.count <;> cases p.backward <;> simp [Sql.upTo]

theorem Connection.shown_read (rows : List Value) :
    shown p (p.read rows) = window p.backward p.count rows := by
  rw [shown, KeysetPage.read]
  cases p.count with
  | none => cases p.backward <;> simp [Sql.upTo, window]
  | some n =>
    cases p.backward with
    | false => simp [Sql.upTo, window, List.take_take]
    | true => simp [Sql.upTo, window, List.take_take, List.rtake_eq_reverse_take_reverse]

theorem Connection.more_read (rows : List Value) :
    more p (p.read rows) = p.count.any (fun n => n < rows.length) := by
  rw [more, KeysetPage.read]
  cases p.count with
  | none => rfl
  | some n =>
    have cut : n < min (n + 1) rows.length ↔ n < rows.length := by omega
    cases p.backward <;>
      simp only [Sql.upTo, Option.map_some, Option.any_some, List.length_take,
        List.length_reverse, if_true, if_false, Bool.false_eq_true, cut]

/-- The items that a page reads are enough to make it, and the one beyond its count tells whether
there are more. -/
theorem Connection.ofKeyset_read {α : Type} (node : α → Value) (rows : List α) :
    ofKeyset p ((p.read rows).map node) =
      page p.backward p.count (rows.map (fun ρ => edge p.key (node ρ))) := by
  have edges : (window p.backward p.count (rows.map node)).map (edge p.key) =
      window p.backward p.count (rows.map (fun ρ => edge p.key (node ρ))) := by
    rw [map_window, List.map_map]
    rfl
  rw [KeysetPage.map_read, ofKeyset_eq, shown_read, more_read, edges, page, pageInfo,
    List.length_map, List.length_map]
  rfl

end Page

section Run

variable {Ctx σ : Type} {schema : Schema Ctx} {minify : Bool} {cx : Ctx} {x : Selection}
variable {fl : Sql.Flavor} {d : Driver σ} {s s' : Session σ} {t : Table} {children : List Node}

theorem Execution.fetch_rows {fields : List (String × ShapeField)} {st : Sql.Statement}
    {rows : List Record} {items : List Value}
    (stated : Sql.statement fl (.table t children) none = .ok st)
    (shaped : Shape.ofNode "" (.table t children) = .ok (.mk fields)) (live : s.cancelled = false)
    (answered : (d.answer (st.query fl) s.driver).1 =
      .rows false (rows.map (fun ρ => ⟨.ok (st.row fl ρ), false⟩)))
    (hydrated : Hydration.objects (.mk fields) (rows.map (st.row fl)) = .ok items) :
    ∃ s', fetch fl d (.table t children) none s = (.ok items, s') ∧ s'.cancelled = false := by
  have compiled : Sql.compile fl (.table t children) none = .ok (st.query fl) := by
    rw [Sql.compile, stated]
    rfl
  have shape : shapeOf (.table t children) = .ok (.mk fields) := mapError_eq_ok.mpr shaped
  obtain ⟨s', queried, live'⟩ := Session.query_rows RunError.session (d := d) (q := st.query fl)
    (rows.map (st.row fl)) live (by rw [answered, List.map_map]; rfl)
  refine ⟨s', ?_, live'⟩
  apply Run.bind_ok.mpr ⟨_, s, Run.ofExcept_ok.mpr ⟨compiled, rfl⟩, ?_⟩
  apply Run.bind_ok.mpr ⟨_, s, Run.ofExcept_ok.mpr ⟨shape, rfl⟩, ?_⟩
  exact Run.bind_ok.mpr ⟨_, s', queried, Run.ofExcept_ok.mpr ⟨hydrated, rfl⟩⟩

/-- The items of a table of columns become its page, and nothing else is fetched. -/
theorem Execution.run_columns (leaves : Leaves children) (paged : t.paginate = true)
    {items : List Value} {v : Value}
    (fetched : fetch fl d (.table t children) none s = (.ok items, s'))
    (made : Connection.ofItems t items = .ok v) : run fl d (.table t children) s = (.ok v, s') := by
  have plain : items.mapM (Connection.convertChildren children) = .ok items := by
    rw [mapM_eq_ok_map (g := id) (fun v _ => Connection.convertChildren_leaves leaves v),
      List.map_id]
  have converted : Connection.convert (.table t children) (.list items) = .ok v := by
    rw [Connection.convert]
    apply bind_eq_ok.mpr ⟨items, plain, ?_⟩
    rw [if_pos paged]
    exact made
  apply Run.bind_ok.mpr ⟨items, s', fetched, ?_⟩
  have listed : (t.many || t.paginate) = true := by rw [paged, Bool.or_true]
  have unbatched : ¬Node.anyBatch children = true := by simp [Node.anyBatch_leaves leaves]
  rw [if_pos listed]
  apply Run.bind_ok.mpr ⟨v, s', Run.ofExcept_ok.mpr ⟨converted, rfl⟩, ?_⟩
  rw [if_neg unbatched]
  rfl

theorem execute_run (planned : schema.plan minify cx x = .ok (.table t children))
    (single : t.join = none) (leaves : Leaves children) {shape : Shape}
    (shaped : Shape.ofNode "" (.table t children) = .ok shape) {v : Value}
    (ran : Execution.run fl d (.table t children) s = (.ok v, s')) :
    execute schema fl minify cx d x s = (.ok v, s') := by
  have checked : Shape.checkPlan (.table t children) = .ok () := by
    rw [Shape.checkPlan, single, if_neg (by simp)]
    apply bind_eq_ok.mpr ⟨(), ?_, Shape.checkBatches_leaves leaves⟩
    rw [Shape.checkTable, shaped]
    rfl
  have whole : Execution.ofSelection schema fl minify cx d x s = (.ok v, s') := by
    apply Run.bind_ok.mpr ⟨_, s, Run.ofExcept_ok.mpr ⟨planned, rfl⟩, ?_⟩
    exact Run.bind_ok.mpr ⟨(), s, Run.ofExcept_ok.mpr ⟨checked, rfl⟩, ran⟩
  rw [execute, whole]

end Run

section KeysetPage

variable {Ctx σ : Type} {schema : Schema Ctx} {minify : Bool} {cx : Ctx} {x : Selection}
variable {fl : Sql.Flavor} {d : Driver σ} {s : Session σ} {t : Table} {children : List Node}
variable {key : SortKey} {order : ColumnOrder} {table : List Record}

theorem Plan.KeysetPage.read_subperm {α : Type} (p : KeysetPage) (rows : List α) :
    (p.read rows).Subperm rows := by
  rw [read]
  split
  · exact (Sql.upTo_sublist _ _).subperm.trans (List.reverse_perm rows).subperm
  · exact (Sql.upTo_sublist _ _).subperm

/-- Part of the rows become an object each. -/
theorem Plan.Table.Keyed.objects (keyed : t.Keyed children fl order key table)
    (coherent : (Node.table t children).Everywhere Table.Coherent) {st : Sql.Statement}
    (stated : Sql.statement fl (.table t children) none = .ok st)
    {fields : List (String × ShapeField)}
    (shaped : Shape.ofNode "" (.table t children) = .ok (.mk fields)) {label : String}
    (identity : Shape.identityOf fields = [label])
    (first : Sql.firstSource? fl t children label = some (Plan.identityText fl t children))
    {rows : List Record} (part : rows.Subperm table) :
    Hydration.objects (.mk fields) (rows.map (st.row fl)) =
      .ok (rows.map (Hydration.single fl st (.mk fields))) := by
  obtain ⟨rows', perm, sublist⟩ := part
  apply Hydration.objects_singles coherent stated shaped identity first
  · intro ρ hρ
    exact keyed.identified ρ (sublist.subset (perm.mem_iff.mpr hρ))
  · exact (perm.map _).nodup_iff.mp (keyed.distinct.sublist (sublist.map _))

variable [∀ source, Std.TransCmp (order source)]

variable (order) in
/-- What qualifies for a page is part of the table. -/
theorem qualifying_subperm (p : KeysetPage) (table : List Record) :
    (order.qualifying p table).Subperm table :=
  List.filter_sublist.subperm.trans (ColumnOrder.sorts_sorted order _ table).perm.subperm

/-- A page of a root table by its sort key is the page of the rows that qualify for it. -/
theorem execute_keysetPage {types : List (ObjectType Ctx)} {queryType : String}
    (built : Schema.build types queryType = .ok schema)
    (planned : schema.plan minify cx x = .ok (.table t children)) (root : t.KeysetRoot key)
    (leaves : Leaves children) {backward : Bool} {count : Option Nat} {cursor : Option String}
    (asks : t.Asks backward count cursor) {position : Option (List Value)}
    (decoded : cursor.mapM (fun c => Cursor.toKeyset c key) = .ok position)
    (known : ∀ vs, position = some vs → ∀ v ∈ vs, v.isNull = false)
    (keyed : t.Keyed children fl order key table)
    (serves : d.Serves fl order (.table t children) table) (live : s.cancelled = false) :
    ∃ fields st s', Shape.ofNode "" (.table t children) = .ok (.mk fields) ∧
      Sql.statement fl (.table t children) none = .ok st ∧ s'.cancelled = false ∧
      (∀ ρ ∈ table, Hydration.objects (.mk fields) [st.row fl ρ] =
        .ok [Hydration.single fl st (.mk fields) ρ]) ∧
      execute schema fl minify cx d x s = (.ok (Connection.page backward count
        ((order.qualifying ⟨key, t.label, count, backward, position⟩ table).map
          (fun ρ => Connection.edge key (Hydration.single fl st (.mk fields) ρ)))), s') := by
  have coherent := Plan.plan_coherent (Schema.valid_of_build built) planned
  have only := Plan.plan_columns leaves root.batchKeys? planned
  let p : KeysetPage := ⟨key, t.label, count, backward, position⟩
  have asked : t.keysetPage key t.label = .ok p :=
    (Table.keysetPage_asks asks).mpr ⟨position, decoded, rfl⟩
  have filled (vs : List Value) (given : position = some vs) :
      vs.length = key.length ∧ ∀ v ∈ vs, v.isNull = false :=
    ⟨Cursor.position_length decoded given, known vs given⟩
  obtain ⟨fields, label, shaped, _, identity, first⟩ := Hydration.shape_columnsOnly fl only
  have full : p.key ≠ [] := only.key_ne_nil key root.sortKey
  obtain ⟨conditions, ps, past, kept⟩ := Sql.keeps_beyond order full filled
  obtain ⟨st, stated, _, pages⟩ := Sql.statement_keysetRoot fl root leaves asked past
  -- Rows with places of their own leave the database one answer, which is what the page reads.
  obtain ⟨result, returned, answered⟩ := serves st stated s.driver
  obtain rfl := Sql.returned_keysetRoot pages (fun ρ hρ => kept ρ (keyed.cells ρ hρ))
    keyed.separate returned
  have hydrated := keyed.objects coherent stated shaped identity first
    ((p.read_subperm _).trans (qualifying_subperm order p table))
  obtain ⟨s', fetched, live'⟩ := Execution.fetch_rows stated shaped live answered hydrated
  have paged := Connection.ofKeyset_read (p := p) (Hydration.single fl st (.mk fields))
    (order.qualifying p table)
  have made := (Connection.ofItems_keyset root.keyset?).mpr ⟨p, asked, paged.symm⟩
  refine ⟨fields, st, s', shaped, stated, live', fun ρ hρ => ?_, ?_⟩
  · exact keyed.objects coherent stated shaped identity first (List.singleton_subperm_iff.mpr hρ)
  apply execute_run planned root.join leaves shaped
  exact Execution.run_columns leaves root.paginate fetched made

/-- A page by a sort key is a window on the rows that lie past its cursor, the first ones or the
last ones, in the order that the key declares. -/
theorem execute_page_window {types : List (ObjectType Ctx)} {queryType : String}
    (built : Schema.build types queryType = .ok schema)
    (planned : schema.plan minify cx x = .ok (.table t children)) (root : t.KeysetRoot key)
    (leaves : Leaves children) {backward : Bool} {count : Option Nat} {cursor : Option String}
    (asks : t.Asks backward count cursor) {position : Option (List Value)}
    (decoded : cursor.mapM (fun c => Cursor.toKeyset c key) = .ok position)
    (known : ∀ vs, position = some vs → ∀ v ∈ vs, v.isNull = false)
    (keyed : t.Keyed children fl order key table)
    (serves : d.Serves fl order (.table t children) table) (live : s.cancelled = false) :
    ∃ shape st node s', Shape.ofNode "" (.table t children) = .ok shape ∧
      Sql.statement fl (.table t children) none = .ok st ∧
      (∀ ρ ∈ table, Hydration.objects shape [st.row fl ρ] = .ok [node ρ]) ∧
      let os := key.terms t.label
      let rows := (order.sorted os table).filter (order.beyond os backward position)
      let edges := ((window backward count rows).map node).map (Connection.edge key)
      let more := count.any (fun n => n < rows.length)
      execute schema fl minify cx d x s = (.ok (.connection edges ⟨more && !backward,
        more && backward, edges.head?.map Prod.fst, edges.getLast?.map Prod.fst⟩ none), s') := by
  obtain ⟨fields, st, s', shaped, stated, _, nodes, executed⟩ :=
    execute_keysetPage built planned root leaves asks decoded known keyed serves live
  refine ⟨.mk fields, st, Hydration.single fl st (.mk fields), s', shaped, stated, nodes, ?_⟩
  intro os rows edges more
  rw [executed, Connection.page, Connection.pageInfo, ← map_window, List.length_map]
  simp only [edges, more, List.map_map]
  rfl

end KeysetPage

section Library

def byYear : SortColumn := ⟨"year", "year", .ascending, .int⟩

def libraryFields : List (Field Unit) :=
  [{ plainField "books" (.object "Book" true) with
    sortKey := some (fun _ _ => [byYear])
    paginate := true }]

/-- Books, which have numbers on their shelves, a page at a time by the year they came out. -/
def libraryTypes : List (ObjectType Unit) :=
  [.ofFields "Query" none libraryFields,
    .ofFields "Book" (some ⟨.static (.ident "books"), ["shelf", "number"], [], none⟩)
      [plainField "year" .scalar]]

def library : Schema Unit := ⟨libraryTypes, .ofFields "Query" none libraryFields⟩

instance transCmp_integers (source : String) : Std.TransCmp (ColumnOrder.integers source) :=
  inferInstanceAs (Std.TransCmp (compareOn _))

theorem build_library : Schema.build libraryTypes "Query" = .ok library := by rfl

def booksRequest (args : Arguments) : Selection :=
  ⟨"books", none, args, [⟨"edges", none, .empty,
    [⟨"node", none, .empty, [.leaf "year" none]⟩]⟩]⟩

def booksTable (args : Arguments) : Table where
  name := .ident "books"
  label := "books"
  fieldName := "books"
  arguments := args
  join := none
  junction := none
  batch := none
  filter := []
  orderBy := none
  sortKey := some [byYear]
  paginate := true
  many := true
  location := ["Query", "books"]

theorem label_books (args : Arguments) : (booksTable args).label = "books" := rfl

def bookNodes : List Node :=
  [.composite ⟨["shelf", "number"], "shelf#number", ["Query", "books"]⟩,
    .column ⟨.name "year", "year", "year", false, none, ["Query", "books"]⟩,
    .column ⟨.name "year", "year", "year", false, none, ["Query", "books", "year"]⟩]

theorem plan_booksRequest (args : Arguments) :
    library.plan false () (booksRequest args) = .ok (.table (booksTable args) bookNodes) := by rfl

theorem keysetRoot_books (args : Arguments) : (booksTable args).KeysetRoot [byYear] :=
  ⟨rfl, rfl, rfl, rfl, rfl, rfl, rfl⟩

theorem leaves_books : Leaves bookNodes := by simp [Leaves, bookNodes, Node.table?]

def booksShape : Shape := .mk
  [("shelf#number", .column "shelf#number" true), ("year", .column "year" false)]

theorem shape_books (args : Arguments) :
    Shape.ofNode "" (.table (booksTable args) bookNodes) = .ok booksShape := by rfl

/-- The page of a number of books on a side of a cursor. -/
def pageArguments (backward : Bool) (n : Int64) (cursor : Option String) : Arguments :=
  .ofPairs ((if backward then "last" else "first", .int n) ::
    cursor.toList.map (fun c => (if backward then "before" else "after", .text c)))

theorem asks_pageArguments (backward : Bool) {n : Int64} (count : 0 ≤ n.toInt)
    (cursor : Option String) :
    (booksTable (pageArguments backward n cursor)).Asks backward (some n.toInt.toNat) cursor := by
  have counted : (if 0 ≤ n.toInt then .ok (some n.toInt.toNat)
      else .error (.notACount (if backward then "last" else "first") (.int n)) :
        Except ArgumentError (Option Nat)) = .ok (some n.toInt.toNat) := if_pos count
  have counts : (pageArguments backward n cursor).count? (if backward then "last" else "first") =
      .ok (some n.toInt.toNat) := by
    cases backward <;> cases cursor <;> exact counted
  refine ⟨congrArg (Except.mapError _) counts, ?_, ?_, ?_, fun _ => .inl nofun⟩
  · cases backward <;> cases cursor <;> rfl
  · cases backward <;> cases cursor <;> rfl
  · cases backward <;> cases cursor <;> rfl

/-- A book's shelf, its number there, its year, and the shelf and the number put together. -/
def book (shelf number year : Int64) : Record := fun source =>
  if source = qualified "books" "shelf" then .int shelf
  else if source = qualified "books" "number" then .int number
  else if source = qualified "books" "year" then .int year
  else .text (Numeral.ofInt64 shelf ++ Numeral.ofInt64 number)

/-- What the rows of books are selected from. The year is selected once, both for the cursors and
as it is asked for. -/
def bookItem : Sql.SelectItem :=
  ⟨Sql.compositeSource .sqlite (booksTable .empty) ["shelf", "number"], "shelf#number"⟩

def yearItem : Sql.SelectItem := ⟨[.column "books" "year"], "year"⟩

def bookRow (ρ : Record) : Row :=
  ⟨[bookItem, yearItem].map (fun i => (i.output, ρ (i.source.text .sqlite)))⟩

theorem row_books {args : Arguments} {st : Sql.Statement}
    (stated : Sql.statement .sqlite (.table (booksTable args) bookNodes) none = .ok st)
    (ρ : Record) : st.row .sqlite ρ = bookRow ρ := by
  have coherent := Plan.plan_coherent (Schema.valid_of_build build_library) (plan_booksRequest args)
  have items : st.part.items = [bookItem, yearItem, yearItem] := Sql.statement_items coherent stated
  have apart : yearItem.text .sqlite ≠ bookItem.text .sqlite := by decide +kernel
  have selected : st.part.selected .sqlite = [bookItem, yearItem] := by
    rw [Sql.Part.selected, items]
    simp [List.eraseDupsBy_cons, List.filter, apart]
  rw [Sql.Statement.row, selected, bookRow]

/-- A database of books. A bound value is the year past which a page goes on, and no year is past a
null. -/
def booksDriver (backward : Bool) (n : Int64) (books : List Record) : Driver Unit where
  answer q s :=
    let years := q.params.values
    let page : KeysetPage := ⟨[byYear], "books", some n.toInt.toNat, backward,
      if years.isEmpty then none else some years⟩
    let rows := if years.any Value.isNull then []
      else page.read (ColumnOrder.integers.qualifying page books)
    (.rows false (rows.map (fun ρ => ⟨.ok (bookRow ρ), false⟩)), s)

/-- What is bound for a page is the year that it goes on from, and nothing is past a null. -/
theorem bound_books {p : KeysetPage} (keyed : p.key = [byYear])
    (single : ∀ vs, p.cursor = some vs → vs.length = 1) :
    ∃ conditions ps, (Sql.cursorCondition (.keyset p)).run .empty = .ok (conditions, ps) ∧
      ps.values = p.cursor.getD [] ∧ ((p.cursor.getD []).any Value.isNull = true →
        ∀ ρ, ColumnOrder.integers.keeps conditions ρ = false) := by
  obtain ⟨key, label, count, backward, cursor⟩ := p
  cases keyed
  cases cursor with
  | none => exact ⟨_, _, rfl, rfl, nofun⟩
  | some vs =>
    obtain ⟨v, rfl⟩ := List.length_eq_one_iff.mp (single vs rfl)
    refine ⟨_, _, rfl, rfl, fun null ρ => ?_⟩
    cases v with
    | null => exact Sql.keeps_null rfl ρ
    | _ => cases null

theorem serves_books (backward : Bool) {n : Int64} (count : 0 ≤ n.toInt) (cursor : Option String)
    {books : List Record}
    (cells : ∀ ρ ∈ books, (ρ (qualified "books" "year")).isNull = false) :
    (booksDriver backward n books).Serves .sqlite .integers
      (.table (booksTable (pageArguments backward n cursor)) bookNodes) books := by
  intro st stated state
  have root := keysetRoot_books (pageArguments backward n cursor)
  obtain ⟨p, asked⟩ := Sql.keysetPage_of_statement root stated
  obtain ⟨position, decoded, rfl⟩ :=
    (Table.keysetPage_asks (asks_pageArguments backward count cursor)).mp asked
  have single (vs : List Value) (given : position = some vs) : vs.length = 1 :=
    Cursor.position_length decoded given
  obtain ⟨conditions, ps, past, values, nothing⟩ := bound_books (p := ⟨[byYear], "books",
    some n.toInt.toNat, backward, position⟩) rfl single
  obtain ⟨st', stated', rfl, pages⟩ := Sql.statement_keysetRoot .sqlite root leaves_books asked past
  cases stated.symm.trans stated'
  have rows : st.row .sqlite = bookRow := funext (row_books stated)
  simp only [booksDriver, Sql.Statement.query, values, rows]
  by_cases null : (position.getD []).any Value.isNull = true
  · rw [if_pos null]
    exact ⟨[], Sql.returns_nil pages (nothing null), rfl⟩
  · rw [if_neg null]
    have known : ∀ vs, position = some vs → vs.length = 1 ∧ ∀ v ∈ vs, v.isNull = false := by
      rintro vs rfl
      exact ⟨single vs rfl, by simpa using null⟩
    obtain ⟨_, _, past', kept⟩ := Sql.keeps_beyond .integers (p := ⟨[byYear], "books",
      some n.toInt.toNat, backward, position⟩) (List.cons_ne_nil _ _) known
    cases past.symm.trans past'
    have years : ∀ ρ ∈ books, ∀ o ∈ SortKey.terms "books" [byYear],
        (ρ o.source).isNull = false := by
      intro ρ hρ o ho
      cases List.mem_singleton.mp ho
      exact cells ρ hρ
    refine ⟨_, Sql.returns_read pages (fun ρ hρ => kept ρ (years ρ hρ)), ?_⟩
    cases position with
    | none => rfl
    | some vs =>
      obtain ⟨v, rfl⟩ := List.length_eq_one_iff.mp (single vs rfl)
      rfl

/-- Three books on two shelves. -/
def shelves : List Record := [book 1 1 1990, book 1 2 2001, book 2 1 2010]

theorem sorted_shelves :
    ColumnOrder.integers.sorted (SortKey.terms "books" [byYear]) shelves = shelves := by
  apply List.mergeSort_of_pairwise
  decide +kernel

theorem keyed_shelves (args : Arguments) :
    (booksTable args).Keyed bookNodes .sqlite .integers [byYear] shelves := by
  have keyed : (booksTable .empty).Keyed bookNodes .sqlite .integers [byYear] shelves := by
    constructor
    · decide +kernel
    · rw [ColumnOrder.Separates]
      decide +kernel
    · decide +kernel
    · decide +kernel
  exact ⟨keyed.cells, keyed.separate, keyed.identified, keyed.distinct⟩

/-- The cursor of a year. -/
def yearCursor (year : Int64) : String := Cursor.ofFields [("year", .int year)]

theorem toKeyset_yearCursor (year : Int64) :
    Cursor.toKeyset (yearCursor year) [byYear] = .ok [.int year] := by
  have names : SortKey.names [byYear] = ["year"] := rfl
  have scalars : ∀ c ∈ [byYear], (Value.int year).isScalar = true := fun _ _ => rfl
  have converts : ∀ c ∈ [byYear], c.type.convert? (.int year) = some (.int year) := by
    intro c hc
    cases List.mem_singleton.mp hc
    rfl
  have read := Cursor.toKeyset_ofFields (by simp [names]) scalars converts
  exact read

def bookNode (ρ : Record) : Value :=
  .object [("shelf#number", ρ (bookItem.source.text .sqlite)),
    ("year", ρ (qualified "books" "year"))]

theorem node_shelves {args : Arguments} {shape : Shape} {st : Sql.Statement}
    {node : Record → Value}
    (shaped : Shape.ofNode "" (.table (booksTable args) bookNodes) = .ok shape)
    (stated : Sql.statement .sqlite (.table (booksTable args) bookNodes) none = .ok st)
    (nodes : ∀ ρ ∈ shelves, Hydration.objects shape [st.row .sqlite ρ] = .ok [node ρ]) :
    ∀ ρ ∈ shelves, node ρ = bookNode ρ := by
  have objects : ∀ ρ ∈ shelves, Hydration.objects booksShape [bookRow ρ] = .ok [bookNode ρ] := by
    simp only [shelves, List.forall_mem_cons]
    exact ⟨rfl, rfl, rfl, nofun⟩
  intro ρ hρ
  have hydrated := nodes ρ hρ
  cases (shape_books args).symm.trans shaped
  rw [row_books stated, objects ρ hρ] at hydrated
  exact (List.singleton_inj.mp (Except.ok.inj hydrated)).symm

/-- The last book before 2010. There is one more before it. -/
theorem execute_page_window_books : ∃ s', execute library .sqlite false ()
    (booksDriver true 1 shelves) (booksRequest (pageArguments true 1 (some (yearCursor 2010))))
    ⟨(), false, []⟩ =
      (.ok (.connection [(yearCursor 2001, bookNode (book 1 2 2001))]
        ⟨false, true, some (yearCursor 2001), some (yearCursor 2001)⟩ none), s') := by
  have count : 0 ≤ (1 : Int64).toInt := by decide
  obtain ⟨shape, st, node, s', shaped, stated, nodes, executed⟩ :=
    execute_page_window build_library (plan_booksRequest _) (keysetRoot_books _) leaves_books
      (asks_pageArguments true count (some (yearCursor 2010)))
      (map_eq_ok.mpr ⟨_, toKeyset_yearCursor 2010, rfl⟩) (by simp [Value.isNull])
      (keyed_shelves _) (serves_books true count _ (by decide +kernel))
      (s := ⟨(), false, []⟩) rfl
  have read : node (book 1 2 2001) = bookNode (book 1 2 2001) :=
    node_shelves shaped stated nodes _ (by simp [shelves])
  have rows : shelves.filter (ColumnOrder.integers.beyond (SortKey.terms "books" [byYear]) true
      (some [.int 2010])) = [book 1 1 1990, book 1 2 2001] := by rfl
  have page : window true (some (1 : Int64).toInt.toNat) [book 1 1 1990, book 1 2 2001] =
      [book 1 2 2001] := by rfl
  simp only [label_books, sorted_shelves, rows, page, List.map_singleton, read] at executed
  exact ⟨s', executed⟩

/-- The eleventh book on the first shelf, and the first on the eleventh. -/
def folded : List Record := [book 1 11 1990, book 11 1 2001]

theorem sorted_folded :
    ColumnOrder.integers.sorted (SortKey.terms "books" [byYear]) folded = folded := by
  apply List.mergeSort_of_pairwise
  decide +kernel

/-- Shelf and number run together, so that the two books become one. -/
theorem execute_folded {s : Session Unit} (live : s.cancelled = false) : ∃ s',
    execute library .sqlite false () (booksDriver false 5 folded)
      (booksRequest (pageArguments false 5 none)) s =
        (.ok (.connection [(yearCursor 1990, bookNode (book 1 11 1990))]
          ⟨false, false, some (yearCursor 1990), some (yearCursor 1990)⟩ none), s') := by
  have root := keysetRoot_books (pageArguments false 5 none)
  have asked : (booksTable (pageArguments false 5 none)).keysetPage [byYear] "books" =
      .ok ⟨[byYear], "books", some 5, false, none⟩ :=
    (Table.keysetPage_asks (asks_pageArguments false (by decide) none)).mpr ⟨none, rfl, rfl⟩
  obtain ⟨st, stated, bound, _⟩ := Sql.statement_keysetRoot .sqlite root leaves_books asked rfl
  have rows : st.row .sqlite = bookRow := funext (row_books stated)
  have answered : ((booksDriver false 5 folded).answer (st.query .sqlite) s.driver).1 =
      .rows false (folded.map (fun ρ => ⟨.ok (st.row .sqlite ρ), false⟩)) := by
    have all : ColumnOrder.integers.qualifying ⟨[byYear], "books", some (5 : Int64).toInt.toNat,
        false, none⟩ folded = folded := by
      rw [ColumnOrder.qualifying, sorted_folded]
      rfl
    have nothing : Params.empty.values = [] := rfl
    simp only [booksDriver, Sql.Statement.query, bound, rows, nothing, List.isEmpty_nil, if_true,
      all]
    rfl
  have hydrated : Hydration.objects booksShape (folded.map (st.row .sqlite)) =
      .ok [bookNode (book 1 11 1990)] := by
    rw [rows]
    rfl
  obtain ⟨s', fetched, _⟩ := Execution.fetch_rows stated (shape_books _) live answered hydrated
  refine ⟨s', execute_run (plan_booksRequest _) rfl leaves_books (shape_books _) ?_⟩
  apply Execution.run_columns leaves_books rfl fetched
  exact (Connection.ofItems_keyset root.keyset?).mpr ⟨_, asked, rfl⟩

/-- Keys of their own are not enough to keep the books of a page apart. -/
theorem execute_page_folds_books :
    (folded.map (fun ρ => [(ρ (qualified "books" "shelf")).key?,
      (ρ (qualified "books" "number")).key?])).Nodup ∧
    ColumnOrder.integers.Separates (SortKey.terms "books" [byYear]) folded ∧
    (booksDriver false 5 folded).Serves .sqlite .integers
      (.table (booksTable (pageArguments false 5 none)) bookNodes) folded ∧
    ∃ edge info s', execute library .sqlite false () (booksDriver false 5 folded)
      (booksRequest (pageArguments false 5 none)) ⟨(), false, []⟩ =
        (.ok (.connection [edge] info none), s') := by
  refine ⟨by decide +kernel, ?_, serves_books false (by decide) _ (by decide +kernel), ?_⟩
  · rw [ColumnOrder.Separates]
    decide +kernel
  · obtain ⟨s', executed⟩ := execute_folded (s := ⟨(), false, []⟩) rfl
    exact ⟨_, _, s', executed⟩

end Library

end TreeQuery
