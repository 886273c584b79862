import TreeQuery.Proofs.Execution.KeysetPage

/-!
Walks from page to page by the cursors that pages hand out. The cursor at the end of a page holds
the sort key of the row there, so the next page takes up where the page stopped, and a walk meets
every row of the table once.
-/

namespace TreeQuery

open Plan (ColumnsOnly KeysetPage Leaves Node Table)
open Sql (ColumnOrder Record qualified)

namespace PageInfo

/-- There are more pages on a side. -/
def continues (info : PageInfo) (backward : Bool) : Bool :=
  if backward then info.hasPreviousPage else info.hasNextPage

/-- The cursor from which the pages on a side go on. -/
def boundary (info : PageInfo) (backward : Bool) : Option String :=
  if backward then info.startCursor else info.endCursor

end PageInfo

/-- A walk from page to page, from a cursor on until there are no more pages. A page is put after
the pages before it, or in front of them if the walk goes backward. -/
inductive Walk {σ : Type} (ask : Option String → Session σ → Except Error Value × Session σ)
    (backward : Bool) :
    Option String → Session σ → List (String × Value) → Session σ → Prop
  | last {cursor : Option String} {s s' : Session σ} {edges : List (String × Value)}
      {info : PageInfo} (page : ask cursor s = (.ok (.connection edges info none), s'))
      (done : info.continues backward = false) : Walk ask backward cursor s edges s'
  | next {cursor : Option String} {s s' s'' : Session σ} {edges later : List (String × Value)}
      {info : PageInfo} {c : String}
      (page : ask cursor s = (.ok (.connection edges info none), s'))
      (more : info.continues backward = true) (boundary : info.boundary backward = some c)
      (rest : Walk ask backward (some c) s' later s'') :
      Walk ask backward cursor s (if backward then later ++ edges else edges ++ later) s''

/-- A value that a cursor holds unchanged. -/
inductive SortColumn.Holds (c : SortColumn) : Value → Prop
  | int (i : Int64) (type : c.type = .any ∨ c.type = .int) : Holds c (.int i)
  | text (s : String) (type : c.type = .any ∨ c.type = .string) : Holds c (.text s)

namespace SortColumn.Holds

variable {c : SortColumn} {v : Value}

theorem isScalar (h : c.Holds v) : v.isScalar = true := by
  cases h <;> rfl

theorem not_null (h : c.Holds v) : v.isNull = false := by
  cases h <;> rfl

theorem convert? (h : c.Holds v) : c.type.convert? v = some v := by
  cases h with
  | int i type => rcases type with type | type <;> rw [type] <;> rfl
  | text s type => rcases type with type | type <;> rw [type] <;> rfl

end SortColumn.Holds

section Split

variable {order : ColumnOrder} {os : List Sql.OrderTerm} {rows before after : List Record}
variable {ρ : Record} [∀ source, Std.TransCmp (order source)]

/-- What lies past a row in sorted rows is what stands on that side of it. -/
theorem filter_beyond (rising : rows.Pairwise (fun ρ τ => order.records os ρ τ = .lt))
    (split : rows = before ++ ρ :: after) (backward : Bool) :
    rows.filter (order.beyond os backward (some (ρ.tuple os))) =
      if backward then before else after := by
  subst split
  obtain ⟨_, behind, across⟩ := List.pairwise_append.mp rising
  obtain ⟨ahead, _⟩ := List.pairwise_cons.mp behind
  have earlier : ∀ τ ∈ before, order.records os τ ρ = .lt :=
    fun τ hτ => across τ hτ ρ (List.mem_cons_self ..)
  have later : ∀ τ ∈ after, order.records os τ ρ = .gt :=
    fun τ hτ => Std.OrientedCmp.gt_iff_lt.mpr (ahead τ hτ)
  have own : order.records os ρ ρ = .eq := Std.ReflCmp.compare_self
  have beyond (τ : Record) : order.beyond os backward (some (ρ.tuple os)) τ =
      (order.records os τ ρ == if backward then .lt else .gt) := rfl
  rw [List.filter_append, List.filter_cons, beyond, own]
  cases backward with
  | false =>
    have none_before : before.filter (order.beyond os false (some (ρ.tuple os))) = [] := by
      apply List.filter_eq_nil_iff.mpr
      intro τ hτ
      simp [beyond, earlier τ hτ]
    have all_after : after.filter (order.beyond os false (some (ρ.tuple os))) = after := by
      apply List.filter_eq_self.mpr
      intro τ hτ
      simp [beyond, later τ hτ]
    simp [none_before, all_after]
  | true =>
    have all_before : before.filter (order.beyond os true (some (ρ.tuple os))) = before := by
      apply List.filter_eq_self.mpr
      intro τ hτ
      simp [beyond, earlier τ hτ]
    have none_after : after.filter (order.beyond os true (some (ρ.tuple os))) = [] := by
      apply List.filter_eq_nil_iff.mpr
      intro τ hτ
      simp [beyond, later τ hτ]
    simp [all_before, none_after]

/-- Sorted rows with places of their own rise strictly. -/
theorem rising_sorted {table : List Record} (separate : order.Separates os table) :
    (order.sorted os table).Pairwise (fun ρ τ => order.records os ρ τ = .lt) := by
  have sorts := ColumnOrder.sorts_sorted order os table
  refine (sorts.rising.and (sorts.separates separate)).imp (fun {ρ τ} h => ?_)
  obtain ⟨le, apart⟩ := h
  cases compared : order.records os ρ τ with
  | lt => rfl
  | eq => exact absurd compared apart
  | gt => exact absurd compared le

end Split

/-- A page that leaves rows over ends at one of its rows, and the rows that are left over are those
beyond it. -/
theorem window_split {α : Type} (backward : Bool) {n : Nat} (positive : 0 < n) {rows : List α}
    (more : n < rows.length) : ∃ before ρ after, rows = before ++ ρ :: after ∧
      window backward (some n) rows = if backward then ρ :: after else before ++ [ρ] := by
  cases backward with
  | false =>
    have full : rows.take n ≠ [] := by
      apply List.ne_nil_of_length_pos
      rw [List.length_take]
      omega
    have page : (rows.take n).dropLast ++ [(rows.take n).getLast full] = rows.take n :=
      List.dropLast_append_getLast full
    refine ⟨_, _, rows.drop n, ?_, page.symm⟩
    rw [← List.singleton_append, ← List.append_assoc, page, List.take_append_drop]
  | true =>
    have full : rows.rtake n ≠ [] := by
      apply List.ne_nil_of_length_pos
      rw [List.rtake, List.length_drop]
      omega
    obtain ⟨ρ, after, page⟩ := List.exists_cons_of_ne_nil full
    refine ⟨rows.rdrop n, ρ, after, ?_, page⟩
    rw [← page, List.rdrop, List.rtake, List.take_append_drop]

theorem Connection.continues_pageInfo (backward : Bool) (n : Nat) (edges : List (String × Value)) :
    (pageInfo backward (some n) edges).continues backward = decide (n < edges.length) := by
  cases backward <;> simp [pageInfo, PageInfo.continues]

section Walk

variable {σ : Type} {ask : Option String → Session σ → Except Error Value × Session σ}
variable {order : ColumnOrder} {os : List Sql.OrderTerm} {rows : List Record} {backward : Bool}
variable {n : Nat} {mark : Record → String} {node : Record → Value}

/-- A cursor that a walk can be at, and its position: it starts without one, and comes to the marks
of rows. -/
inductive Marks (mark : Record → String) (os : List Sql.OrderTerm) (rows : List Record) :
    Option String → Option (List Value) → Prop
  | start : Marks mark os rows none none
  | row {ρ : Record} (member : ρ ∈ rows) : Marks mark os rows (some (mark ρ)) (some (ρ.tuple os))

theorem window_all {α : Type} {rows : List α} (fits : ¬n < rows.length) :
    window backward (some n) rows = rows := by
  cases backward with
  | false => exact List.take_of_length_le (by omega)
  | true =>
    rw [window, if_pos rfl, List.rtake, show rows.length - n = 0 by omega, List.drop_zero]

/-- Every request is answered with the page past its position. -/
def Pages (ask : Option String → Session σ → Except Error Value × Session σ) (order : ColumnOrder)
    (os : List Sql.OrderTerm) (rows : List Record) (backward : Bool) (n : Nat)
    (mark : Record → String) (node : Record → Value) : Prop :=
  ∀ cursor position, Marks mark os rows cursor position → ∀ s : Session σ, s.cancelled = false →
    ∃ s', s'.cancelled = false ∧ ask cursor s = (.ok (Connection.page backward (some n)
      ((rows.filter (order.beyond os backward position)).map (fun ρ => (mark ρ, node ρ)))), s')

variable [∀ source, Std.TransCmp (order source)]

/-- If every request is answered with the page past its position, then a walk from a row on meets
what lies past the row. -/
theorem walk_from (rising : rows.Pairwise (fun ρ τ => order.records os ρ τ = .lt))
    (positive : 0 < n) (answered : Pages ask order os rows backward n mark node)
    {left other : List Record} (split : rows = if backward then left ++ other else other ++ left)
    {cursor : Option String} {position : Option (List Value)}
    (marks : Marks mark os rows cursor position)
    (past : rows.filter (order.beyond os backward position) = left) {s : Session σ}
    (live : s.cancelled = false) :
    ∃ s', Walk ask backward cursor s (left.map (fun ρ => (mark ρ, node ρ))) s' := by
  induction hl : left.length using Nat.strongRecOn generalizing left other cursor position s with
  | ind length inductionHypothesis =>
    obtain ⟨s', live', page⟩ := answered cursor position marks s live
    rw [past] at page
    by_cases more : n < left.length
    · -- The page ends at `ρ`, and what is left past `ρ` is shorter.
      obtain ⟨before, ρ, after, parts, shown⟩ := window_split backward positive more
      have whole : rows = (if backward then before else other ++ before) ++
          ρ :: (if backward then after ++ other else after) := by
        rw [split, parts]
        cases backward <;> simp
      have next := filter_beyond rising whole backward
      have shorter : (if backward then before else after).length < length := by
        rw [← hl, parts]
        cases backward with
        | false => simp; omega
        | true => simp
      have there : Marks mark os rows (some (mark ρ)) (some (ρ.tuple os)) := by
        apply Marks.row
        rw [whole]
        simp
      obtain ⟨other', remaining⟩ : ∃ other', rows = if backward
          then (if backward then before else after) ++ other'
          else other' ++ (if backward then before else after) :=
        ⟨if backward then ρ :: after ++ other else other ++ before ++ [ρ],
          by cases backward <;> simp [whole]⟩
      obtain ⟨s'', rest⟩ := inductionHypothesis _ shorter remaining there
        (by cases backward <;> exact next) live' rfl
      have continues : (Connection.pageInfo backward (some n)
          (left.map (fun ρ => (mark ρ, node ρ)))).continues backward = true := by
        rw [Connection.continues_pageInfo, List.length_map]
        exact decide_eq_true more
      have boundary : (Connection.pageInfo backward (some n)
          (left.map (fun ρ => (mark ρ, node ρ)))).boundary backward = some (mark ρ) := by
        rw [Connection.pageInfo, ← map_window, shown]
        cases backward <;> simp [PageInfo.boundary]
      have walked := Walk.next page continues boundary rest
      rw [← map_window, shown] at walked
      refine ⟨s'', ?_⟩
      rw [parts]
      cases backward <;> simpa using walked
    · have fits : ¬n < (left.map (fun ρ => (mark ρ, node ρ))).length := by simpa using more
      rw [Connection.page, window_all fits] at page
      refine ⟨s', .last page ?_⟩
      rw [Connection.continues_pageInfo, decide_eq_false fits]

end Walk

namespace Plan.Table

variable {t : Table} {children : List Node} {key : SortKey} {fl : Sql.Flavor}

/-- The same table, asked for with other arguments. -/
def withArguments (t : Table) (args : Arguments) : Table := { t with arguments := args }

variable (args : Arguments)

theorem KeysetRoot.withArguments (root : t.KeysetRoot key) :
    (t.withArguments args).KeysetRoot key :=
  ⟨root.paginate, root.sortKey, root.orderBy, root.filter, root.join, root.junction, root.batch⟩

theorem sourceText_withArguments (n : Node) :
    n.sourceText fl (t.withArguments args) = n.sourceText fl t := by
  cases n <;> rfl

theorem identityText_withArguments :
    Plan.identityText fl (t.withArguments args) children = Plan.identityText fl t children := by
  rw [Plan.identityText, Plan.identityText, funext (sourceText_withArguments args)]

theorem Keyed.withArguments {order : ColumnOrder} {table : List Record}
    (keyed : t.Keyed children fl order key table) :
    (t.withArguments args).Keyed children fl order key table where
  cells := keyed.cells
  separate := keyed.separate
  identified := by
    rw [identityText_withArguments]
    exact keyed.identified
  distinct := by
    rw [identityText_withArguments]
    exact keyed.distinct

/-- What is selected from a table does not depend on the arguments of its page. -/
theorem childItems_withArguments (leaves : Leaves children) (path : List String) :
    Sql.childItems fl (t.withArguments args) path children = Sql.childItems fl t path children :=
  Plan.leaves_induction (P := fun children =>
      Sql.childItems fl (t.withArguments args) path children = Sql.childItems fl t path children)
    rfl (fun _ _ later => congrArg (_ ++ ·) later) (fun _ _ later => congrArg (_ ++ ·) later)
    (fun _ _ _ later => later) leaves

end Plan.Table

section Records

variable {label : String} {key : SortKey}

theorem tuple_terms (ρ : Record) (label : String) (key : SortKey) :
    ρ.tuple (key.terms label) = key.map (fun c => ρ (qualified label c.column)) := by
  rw [Record.tuple, SortKey.terms, List.map_map]
  rfl

/-- The cursor that marks a row. -/
def Cursor.ofRecord (label : String) (key : SortKey) (ρ : Record) : String :=
  ofFields (key.map (fun c => (c.name, ρ (qualified label c.column))))

theorem Cursor.toKeyset_ofRecord (names : key.names.Nodup) {ρ : Record}
    (holds : ∀ c ∈ key, c.Holds (ρ (qualified label c.column))) :
    toKeyset (ofRecord label key ρ) key = .ok (ρ.tuple (key.terms label)) := by
  rw [tuple_terms]
  exact toKeyset_ofFields names (fun c hc => (holds c hc).isScalar)
    (fun c hc => (holds c hc).convert?)

/-- An edge's cursor marks the row that its node has the sort key of. -/
theorem Connection.edge_eq (names : key.names.Nodup) {ρ : Record} {node : Value}
    (fetched : ∀ c ∈ key, node.field? c.name = some (ρ (qualified label c.column))) :
    edge key node = (Cursor.ofRecord label key ρ, node) := by
  have read : key.map (fun c => (c.name, (node.field? c.name).getD .null)) =
      key.map (fun c => (c.name, ρ (qualified label c.column))) := by
    apply List.map_congr_left
    intro c hc
    rw [fetched c hc]
    rfl
  have distinct :
      ((key.map (fun c => (c.name, ρ (qualified label c.column)))).map Prod.fst).Nodup := by
    rw [List.map_map]
    exact names
  rw [edge, keyFields, read, Fields.ofPairs_of_nodup distinct, Cursor.ofRecord]

end Records

section Request

variable {Ctx σ : Type} {schema : Schema Ctx} {minify : Bool} {cx : Ctx}
variable {fl : Sql.Flavor} {d : Driver σ} {t : Table} {children : List Node} {key : SortKey}
variable {order : ColumnOrder} {table : List Record} {backward : Bool} {n : Nat}

theorem Hydration.single_congr {st st' : Sql.Statement} (same : st.part.items = st'.part.items)
    (s : Shape) : single fl st s = single fl st' s := by
  funext ρ
  rw [single, single, Sql.Statement.row, Sql.Statement.row, Sql.Part.selected, Sql.Part.selected,
    same]

variable [∀ source, Std.TransCmp (order source)]

/-- Each request of a walk is answered with the page past its position, and the edges of the page
are marked by their own rows. -/
theorem execute_marked {types : List (ObjectType Ctx)} {queryType : String}
    (built : Schema.build types queryType = .ok schema) {x : Selection} {args : Arguments}
    (planned : schema.plan minify cx x = .ok (.table (t.withArguments args) children))
    (root : t.KeysetRoot key) (leaves : Leaves children) {cursor : Option String}
    (asks : (t.withArguments args).Asks backward (some n) cursor) (names : key.names.Nodup)
    (own : ∀ c ∈ key, ∀ m ∈ children, ∀ label, m.entry? = some (c.name, label) →
      m.sourceText fl t = qualified t.label c.column)
    (holds : ∀ ρ ∈ table, ∀ c ∈ key, c.Holds (ρ (qualified t.label c.column)))
    (keyed : t.Keyed children fl order key table)
    (serves : d.Serves fl order (.table (t.withArguments args) children) table)
    {position : Option (List Value)}
    (marks : Marks (Cursor.ofRecord t.label key) (key.terms t.label)
      (order.sorted (key.terms t.label) table) cursor position)
    {s : Session σ} (live : s.cancelled = false) :
    ∃ fields st s', Shape.ofChildren "" [] children = .ok fields ∧
      Shape.ofNode "" (.table (t.withArguments args) children) = .ok (.mk fields) ∧
      Sql.statement fl (.table (t.withArguments args) children) none = .ok st ∧
      st.part.items = Sql.childItems fl t [t.label] children ∧
      (∀ ρ ∈ table, Hydration.objects (.mk fields) [st.row fl ρ] =
        .ok [Hydration.single fl st (.mk fields) ρ]) ∧ s'.cancelled = false ∧
      execute schema fl minify cx d x s = (.ok (Connection.page backward (some n)
        (((order.sorted (key.terms t.label) table).filter
          (order.beyond (key.terms t.label) backward position)).map (fun ρ =>
            (Cursor.ofRecord t.label key ρ, Hydration.single fl st (.mk fields) ρ)))), s') := by
  have coherent := Plan.plan_coherent (Schema.valid_of_build built) planned
  have only := Plan.plan_columns leaves (root.withArguments args).batchKeys? planned
  have sorts := ColumnOrder.sorts_sorted order (key.terms t.label) table
  have decoded : cursor.mapM (fun c => Cursor.toKeyset c key) = .ok position := by
    cases marks with
    | start => rfl
    | row member =>
      have read := Cursor.toKeyset_ofRecord names (holds _ (sorts.perm.mem_iff.mp member))
      exact map_eq_ok.mpr ⟨_, read, rfl⟩
  have known : ∀ vs, position = some vs → ∀ v ∈ vs, v.isNull = false := by
    rintro vs rfl v hv
    cases marks with
    | @row ρ member =>
      rw [tuple_terms] at hv
      obtain ⟨c, hc, rfl⟩ := List.mem_map.mp hv
      exact (holds ρ (sorts.perm.mem_iff.mp member) c hc).not_null
  obtain ⟨fields, st, s', shaped, stated, live', nodes, executed⟩ :=
    execute_keysetPage built planned (root.withArguments args) leaves asks decoded known
      (keyed.withArguments args) serves live
  obtain ⟨_, below, _, same⟩ := Shape.ofNode_table_ok.mp shaped
  cases same
  have marked (ρ : Record) : Connection.edge key (Hydration.single fl st (.mk fields) ρ) =
      (Cursor.ofRecord t.label key ρ, Hydration.single fl st (.mk fields) ρ) := by
    apply Connection.edge_eq names
    intro c hc
    obtain ⟨column, member, name, _⟩ := only.fetched key t.label root.paginate root.keyset? c hc
    have present : (c.name, column.label) ∈ Node.entries children :=
      List.mem_filterMap.mpr ⟨_, member, by rw [Node.entry?, name]⟩
    have sources : ∀ m ∈ children, ∀ label, m.entry? = some (c.name, label) →
        m.sourceText fl (t.withArguments args) = qualified t.label c.column := by
      intro m hm label entry
      rw [Table.sourceText_withArguments]
      exact own c hc m hm label entry
    obtain ⟨m, hm, label, entry, found, first⟩ :=
      Hydration.labelAt?_columnsOnly fl only below present
    rw [sources m hm label entry] at first
    exact Hydration.get?_of_first (s := .mk fields) coherent stated found first ρ []
  have items : st.part.items = Sql.childItems fl t [t.label] children := by
    rw [Sql.statement_items coherent stated]
    exact Table.childItems_withArguments args leaves _
  refine ⟨fields, st, s', below, shaped, stated, items, nodes, live', ?_⟩
  rw [executed]
  simp only [marked]
  rfl

/-- A walk over the pages of a table by its sort key, from the first page on or from the last page
back, ends, and meets all rows of the table in the order of the key. Every cursor that it is handed
is accepted, and marks the row that it came with. -/
theorem execute_walk {types : List (ObjectType Ctx)} {queryType : String}
    (built : Schema.build types queryType = .ok schema) {request : Option String → Selection}
    {arguments : Option String → Arguments} (planned : ∀ c,
      schema.plan minify cx (request c) = .ok (.table (t.withArguments (arguments c)) children))
    (root : t.KeysetRoot key) (leaves : Leaves children) (positive : 0 < n)
    (asks : ∀ c, (t.withArguments (arguments c)).Asks backward (some n) c)
    (names : key.names.Nodup)
    (own : ∀ c ∈ key, ∀ m ∈ children, ∀ label, m.entry? = some (c.name, label) →
      m.sourceText fl t = qualified t.label c.column)
    (holds : ∀ ρ ∈ table, ∀ c ∈ key, c.Holds (ρ (qualified t.label c.column)))
    (keyed : t.Keyed children fl order key table)
    (serves : ∀ c, d.Serves fl order (.table (t.withArguments (arguments c)) children) table)
    {s : Session σ} (live : s.cancelled = false) :
    ∃ (shape : Shape) (st : Sql.Statement) (mark : Record → String) (node : Record → Value)
      (rows : List Record) (s' : Session σ),
      Shape.ofNode "" (.table (t.withArguments (arguments none)) children) = .ok shape ∧
      Sql.statement fl (.table (t.withArguments (arguments none)) children) none = .ok st ∧
      (∀ ρ ∈ table, Hydration.objects shape [st.row fl ρ] = .ok [node ρ] ∧
        Cursor.toKeyset (mark ρ) key = .ok (ρ.tuple (key.terms t.label))) ∧
      order.Sorts (key.terms t.label) table rows ∧
      Walk (fun c => execute schema fl minify cx d (request c)) backward none s
        (rows.map (fun ρ => (mark ρ, node ρ))) s' := by
  have page {cursor : Option String} {position : Option (List Value)}
      (marks : Marks (Cursor.ofRecord t.label key) (key.terms t.label)
        (order.sorted (key.terms t.label) table) cursor position) {s : Session σ}
      (live : s.cancelled = false) :=
    execute_marked built (planned cursor) root leaves (asks cursor) names own holds keyed
      (serves cursor) marks live
  obtain ⟨fields, st, _, below, shaped, stated, items, nodes, _, _⟩ := page .start live
  have answered : Pages (fun c => execute schema fl minify cx d (request c)) order
      (key.terms t.label) (order.sorted (key.terms t.label) table) backward n
      (Cursor.ofRecord t.label key) (Hydration.single fl st (.mk fields)) := by
    intro cursor position marks s live
    obtain ⟨fields', st', s', below', _, _, items', _, live', executed⟩ := page marks live
    cases below.symm.trans below'
    rw [Hydration.single_congr (items'.trans items.symm)] at executed
    exact ⟨s', live', executed⟩
  have whole (rows : List Record) : rows = if backward then rows ++ [] else [] ++ rows := by
    cases backward <;> simp
  obtain ⟨s', walk⟩ := walk_from (rising_sorted keyed.separate) positive answered (whole _) .start
    (List.filter_true _) live
  refine ⟨.mk fields, st, Cursor.ofRecord t.label key, Hydration.single fl st (.mk fields), _, s',
    shaped, stated, fun ρ hρ => ⟨nodes ρ hρ, Cursor.toKeyset_ofRecord names (holds ρ hρ)⟩,
    ColumnOrder.sorts_sorted order _ table, walk⟩

end Request

section Library

/-- What is fetched as the year of a book is its year. -/
theorem sourceText_year : ∀ c ∈ [byYear], ∀ m ∈ bookNodes, ∀ label,
    m.entry? = some (c.name, label) →
    m.sourceText .sqlite (booksTable .empty) = qualified "books" c.column := by
  intro c hc m hm label entry
  cases List.mem_singleton.mp hc
  simp only [bookNodes, List.mem_cons, List.not_mem_nil, or_false] at hm
  rcases hm with rfl | rfl | rfl
  · exact absurd (Prod.mk.inj (Option.some.inj entry)).1 (by decide)
  · rfl
  · rfl

theorem holds_shelves : ∀ ρ ∈ shelves, ∀ c ∈ [byYear],
    c.Holds (ρ (qualified "books" c.column)) := by
  have years (shelf number year : Int64) : ∀ c ∈ [byYear],
      c.Holds (book shelf number year (qualified "books" c.column)) := by
    intro c hc
    cases List.mem_singleton.mp hc
    exact .int year (.inr rfl)
  intro ρ hρ
  simp only [shelves, List.mem_cons, List.not_mem_nil, or_false] at hρ
  rcases hρ with rfl | rfl | rfl
  · exact years 1 1 1990
  · exact years 1 2 2001
  · exact years 2 1 2010

/-- A walk over three books, two at a time. -/
theorem execute_walk_books : ∃ (mark : Record → String) (s' : Session Unit),
    (∀ ρ ∈ shelves, Cursor.toKeyset (mark ρ) [byYear] = .ok [ρ (qualified "books" "year")]) ∧
    Walk (fun c => execute library .sqlite false () (booksDriver false 2 shelves)
      (booksRequest (pageArguments false 2 c))) false none ⟨(), false, []⟩
      (shelves.map (fun ρ => (mark ρ, bookNode ρ))) s' := by
  have count : 0 ≤ (2 : Int64).toInt := by decide
  obtain ⟨shape, st, mark, node, rows, s', shaped, stated, nodes, sorts, walk⟩ :=
    execute_walk (t := booksTable .empty) (n := (2 : Int64).toInt.toNat) (s := ⟨(), false, []⟩)
      build_library (fun c => plan_booksRequest (pageArguments false 2 c))
      (keysetRoot_books _) leaves_books (by decide) (asks_pageArguments false count)
      (by simp [SortKey.names]) sourceText_year holds_shelves (keyed_shelves _)
      (fun c => serves_books false count c (by decide +kernel)) rfl
  have ordered : rows = shelves := by
    have sorted := ColumnOrder.sorts_sorted .integers (SortKey.terms "books" [byYear]) shelves
    rw [sorted_shelves] at sorted
    exact sorts.unique (keyed_shelves .empty).separate sorted
  have read := node_shelves shaped stated (fun ρ hρ => (nodes ρ hρ).1)
  have edges : rows.map (fun ρ => (mark ρ, node ρ)) =
      shelves.map (fun ρ => (mark ρ, bookNode ρ)) := by
    rw [ordered]
    exact List.map_congr_left (fun ρ hρ => by rw [read ρ hρ])
  refine ⟨mark, s', fun ρ hρ => (nodes ρ hρ).2, ?_⟩
  rw [← edges]
  exact walk

/-- Where two books become one, no walk meets both. -/
theorem execute_walk_folds_books :
    (folded.map (fun ρ => [(ρ (qualified "books" "shelf")).key?,
      (ρ (qualified "books" "number")).key?])).Nodup ∧
    ColumnOrder.integers.Separates (SortKey.terms "books" [byYear]) folded ∧
    (∀ c, (booksDriver false 5 folded).Serves .sqlite .integers
      (.table (booksTable (pageArguments false 5 c)) bookNodes) folded) ∧
    ∀ edges s', Walk (fun c => execute library .sqlite false () (booksDriver false 5 folded)
      (booksRequest (pageArguments false 5 c))) false none ⟨(), false, []⟩ edges s' →
      edges.length = 1 := by
  refine ⟨by decide +kernel, ?_, fun c => serves_books false (by decide) c (by decide +kernel), ?_⟩
  · rw [ColumnOrder.Separates]
    decide +kernel
  · intro edges s' walk
    obtain ⟨_, executed⟩ := execute_folded (s := ⟨(), false, []⟩) rfl
    cases walk with
    | last page done =>
      cases executed.symm.trans page
      rfl
    | next page more boundary rest =>
      cases executed.symm.trans page
      cases more

end Library

end TreeQuery
