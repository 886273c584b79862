import TreeQuery.Proofs.Plan.Walk
import TreeQuery.Proofs.Sql.Relations

/-!
No filter of a statement's tables is dropped or written twice: those of a page stand in the page,
and all others among the conditions of the statement. A batch is also confined to its keys.
-/

namespace TreeQuery

open Plan (Node Table)

namespace Plan.Node

mutual

theorem everywhere_statementTables {p : Table → List Node → Prop} : (n : Node) → n.Everywhere p →
    ∀ u ∈ n.statementTables, ∃ children, p u children
  | .table t children, h, u, hu => by
    rw [statementTables] at hu
    rcases List.mem_cons.mp hu with rfl | below
    · exact ⟨children, h.1⟩
    · exact everywhere_joinedTables children h.2 u below
  | .column _, _, u, hu | .composite _, _, u, hu | .noop _ _, _, u, hu => by
    exact (List.not_mem_nil hu).elim

theorem everywhere_joinedTables {p : Table → List Node → Prop} : (nodes : List Node) →
    EverywhereIn p nodes → ∀ u ∈ joinedTables nodes, ∃ children, p u children
  | [], _, u, hu => (List.not_mem_nil hu).elim
  | n :: r, h, u, hu => by
    rw [joinedTables] at hu
    rcases List.mem_append.mp hu with here | later
    · split at here
      · exact (List.not_mem_nil here).elim
      · exact everywhere_statementTables n h.1 u here
    · exact everywhere_joinedTables r h.2 u later

end

end Plan.Node

namespace Sql

/-- The conditions that tables are joined under, those within a page among them. -/
def TableItem.ons : TableItem → List Fragment
  | .leftJoin _ _ _ on => [on]
  | .page p => p.inner.toList.map InnerJoin.on
  | .lateral _ p on => p.inner.toList.map InnerJoin.on ++ [on]
  | _ => []

def Part.ons (part : Part) : List Fragment := part.tables.flatMap TableItem.ons

/-- The clause lists that relate a table to the one above it. -/
def relatingClauses (t : Table) : List (List Clause) :=
  t.join.toList ++ match t.junction with
    | some j => j.fromParent.toList ++ j.toChild.toList ++
        (j.batch.bind Plan.JunctionBatch.join).toList
    | none => []

/-- A condition that relates a table to the one above it, or to the keys of its batch. -/
inductive Relates (t : Table) : Fragment → Prop
  | clauses {upper lower : String} {clauses : List Clause} {f : Fragment}
      (declared : clauses ∈ relatingClauses t)
      (written : Writes (.ofJoin upper lower, clauses) f) : Relates t f
  | keys {keys : Plan.Batch} (batch : t.batchKeys? = some keys) :
      Relates t (correlation (pageSource t).2 keys)

/-- A page selects by the filters of its table, between what relates the table to others and what
is past the cursor. -/
structure PageFilters (t : Table) (page : Page) : Prop where
  conditions : ∃ links filters past, page.conditions = links ++ filters ++ past ∧
    (∀ f ∈ links, Relates t f) ∧ List.Forall₂ Writes (tableFilters t) filters ∧
    ∃ p, t.paging = .ok p ∧ Outcome (cursorCondition p) past

def Bound (values : List Value) (tokens : List Token) : Prop :=
  List.Forall₂ (fun v token => ∃ position, token = .param position v) values tokens

theorem bindValues_bound (values : List Value) : Yields (Bound values) (bindValues values) := by
  induction values with
  | nil => exact .pure .nil
  | cons v values inductionHypothesis =>
    have first : Yields (fun token => ∃ position, token = .param position v) (bindValue v) := by
      constructor
      intro ps token ps' ran
      cases ran
      exact ⟨_, rfl⟩
    apply first.bind
    intro token here
    apply inductionHypothesis.bind
    intro tokens later
    exact .pure (.cons here later)

def oneOf (column : Token) (tokens : List Token) : Fragment :=
  column :: .sql " IN (" :: commaSeparated (tokens.map (fun t => [t])) ++ [.sql ")"]

theorem membership_bound (column : Token) (values : List Value) :
    Yields (fun f => ∃ tokens, f = oneOf column tokens ∧ Bound values tokens)
      (membership column values) := by
  apply (bindValues_bound values).bind
  intro tokens bound
  exact .pure ⟨tokens, rfl, bound⟩

/-- A batch reads only the rows of its keys: either its key column is one of them, or its page is
taken for each row of the table of them. -/
inductive Confined (t : Table) : Option (List Value) → List Fragment → List TableItem → Prop
  | unscoped {scope : Option (List Value)} {tables : List TableItem}
      (single : t.batchKeys? = none) : Confined t scope [] tables
  | members {keys : Plan.Batch} {values : List Value} {tokens : List Token}
      {tables : List TableItem} (batch : t.batchKeys? = some keys) (unpaged : t.paginate = false)
      (bound : Bound values tokens) :
      Confined t (some values) [oneOf (.column (pageSource t).2 keys.thisKey.column) tokens] tables
  | rows {keys : Plan.Batch} {values : List Value} {tokens : List Token} {outer : Bool}
      {page : Page} {conditions : List Fragment} {tables : List TableItem}
      (batch : t.batchKeys? = some keys) (paginate : t.paginate = true)
      (bound : Bound values tokens)
      (first : page.conditions = correlation (pageSource t).2 keys :: conditions) :
      Confined t (some values) [] (.scope keys.parentKey.column tokens ::
        .lateral outer page (correlation (pageSource t).2 keys) :: tables)

theorem Confined.append {t : Table} {scope : Option (List Value)} {within : List Fragment}
    {tables : List TableItem} (h : Confined t scope within tables) (more : List TableItem) :
    Confined t scope within (tables ++ more) := by
  cases h with
  | unscoped single => exact .unscoped single
  | members batch unpaged bound => exact .members batch unpaged bound
  | rows batch paginate bound first => exact .rows batch paginate bound first

/-- A part has the filters of some tables, and is otherwise conditioned on what relates them. -/
structure FiltersOf (ts : List Table) (part : Part) : Prop where
  conditions : List.Forall₂ Writes (ts.flatMap plainFilters) part.conditions
  pages : List.Forall₂ PageFilters (ts.filter Table.paginate) part.pages
  ons : ∀ on ∈ part.ons, ∃ t ∈ ts, Relates t on

theorem FiltersOf.append {ts us : List Table} {part part' : Part} (h : FiltersOf ts part)
    (h' : FiltersOf us part') : FiltersOf (ts ++ us) (part ++ part') where
  conditions := by
    rw [List.flatMap_append]
    exact List.rel_append h.conditions h'.conditions
  pages := by
    have pages : (part ++ part').pages = part.pages ++ part'.pages := List.filterMap_append
    rw [pages, List.filter_append]
    exact List.rel_append h.pages h'.pages
  ons := by
    intro on member
    have ons : (part ++ part').ons = part.ons ++ part'.ons := List.flatMap_append
    rw [ons] at member
    rcases List.mem_append.mp member with here | later
    · obtain ⟨t, ht, relates⟩ := h.ons on here
      exact ⟨t, List.mem_append_left _ ht, relates⟩
    · obtain ⟨t, ht, relates⟩ := h'.ons on later
      exact ⟨t, List.mem_append_right _ ht, relates⟩

theorem filtersOf_nil {items : List SelectItem} : FiltersOf [] { Part.empty with items } :=
  ⟨.nil, .nil, by simp [Part.ons, Part.empty]⟩

/-- What a table's relation has in itself: its page if it is paginated, the conditions it is joined
under, and what confines it to a batch. -/
structure RelationFilters (parent : Option Table) (t : Table) (scope : Option (List Value))
    (part : Part) : Prop where
  pages : List.Forall₂ PageFilters
    ((if continues parent t then [t] else []).filter Table.paginate) part.pages
  ons : ∀ on ∈ part.ons, continues parent t = true ∧ Relates t on
  joined : parent.isSome → part.conditions = []
  confined : parent = none → Confined t scope part.conditions part.tables

section Relations

variable {t : Table} {path : List String} {parent : Option Table} {scope : Option (List Value)}
variable {part : Part}

theorem PageFor.filters {links : List Fragment} {inner : Option InnerJoin} {page : Page}
    (taken : PageFor t links inner page) (related : ∀ f ∈ links, Relates t f) :
    PageFilters t page := by
  obtain ⟨p, filters, past, asked, written, beyond, rfl⟩ := taken.made
  exact ⟨links, filters, past, rfl, related, written, p, asked, beyond⟩

theorem PageFor.inner_eq {links : List Fragment} {inner : Option InnerJoin} {page : Page}
    (taken : PageFor t links inner page) : page.inner = inner := by
  obtain ⟨p, filters, past, _, _, _, rfl⟩ := taken.made
  rfl

theorem PageFor.conditions_eq {links : List Fragment} {inner : Option InnerJoin} {page : Page}
    (taken : PageFor t links inner page) : ∃ more, page.conditions = links ++ more := by
  obtain ⟨p, filters, past, _, _, _, rfl⟩ := taken.made
  exact ⟨filters ++ past, List.append_assoc _ _ _⟩

/-- What a filter writes for a clause list that relates a table relates it. -/
theorem relates_links {upper lower : String} {clauses : List Clause} {links : List Fragment}
    (relating : clauses ∈ relatingClauses t)
    (tied : List.Forall₂ Writes (declared (.ofJoin upper lower) clauses) links) :
    ∀ f ∈ links, Relates t f := by
  unfold declared at tied
  split at tied
  · cases tied
    simp
  · cases tied with
    | cons written rest =>
      cases rest
      rw [List.forall_mem_singleton]
      exact .clauses relating written

theorem Inner.relates {j : Plan.Junction} {toChild : List Clause} {inner : Option InnerJoin}
    (relating : toChild ∈ relatingClauses t) (read : Inner t j toChild inner) :
    ∀ on ∈ inner.toList.map InnerJoin.on, Relates t on := by
  cases read with
  | unread => simp
  | joined written =>
    simp only [Option.toList_some, List.map_cons, List.map_nil, List.forall_mem_singleton]
    exact .clauses relating written

theorem pages_one {page : Page} (within : continues parent t = true) (paginate : t.paginate = true)
    (filters : PageFilters t page) : List.Forall₂ PageFilters
      ((if continues parent t then [t] else []).filter Table.paginate) [page] := by
  rw [if_pos within, List.filter_cons_of_pos paginate]
  exact .cons filters .nil

theorem pages_none (unpaged : t.paginate = false) : List.Forall₂ PageFilters
    ((if continues parent t then [t] else []).filter Table.paginate) [] := by
  have nothing : (if continues parent t then [t] else []).filter Table.paginate = [] := by
    split <;> simp [unpaged]
  rw [nothing]
  exact .nil

theorem mem_relatingClauses_join {join : List Clause} (directly : t.join = some join) :
    join ∈ relatingClauses t := by
  simp [relatingClauses, directly]

theorem mem_relatingClauses_junction {j : Plan.Junction} {clauses : List Clause}
    (through : t.junction = some j) (among : j.fromParent = some clauses ∨
      j.toChild = some clauses ∨ ∃ b, j.batch = some b ∧ b.join = some clauses) :
    clauses ∈ relatingClauses t := by
  rcases among with above | below | ⟨b, many, below⟩
  · simp [relatingClauses, through, above]
  · simp [relatingClauses, through, below]
  · simp [relatingClauses, through, many, below]

theorem Reached.filters (reached : Reached path t parent scope part) :
    RelationFilters parent t scope part := by
  cases reached with
  | root unlinked single unpaged =>
    have keys := (batchKeys?_unlinked unlinked).trans single
    exact ⟨pages_none unpaged, nofun, nofun, fun _ => .unscoped keys⟩
  | rootPage unlinked single taken =>
    have keys := (batchKeys?_unlinked unlinked).trans single
    refine ⟨pages_one rfl taken.paginate (taken.filters (by simp)), ?_, nofun,
      fun _ => .unscoped keys⟩
    intro on member
    simp [Part.ons, tablesOnly, TableItem.ons, taken.inner_eq] at member
  | joined directly unlinked single unpaged written =>
    have within := continues_single ((batchKeys?_unlinked unlinked).trans single)
    refine ⟨pages_none unpaged, ?_, fun _ => rfl, nofun⟩
    intro on member
    obtain rfl := List.mem_singleton.mp member
    exact ⟨within _, .clauses (mem_relatingClauses_join directly) written⟩
  | joinedPage directly unlinked single tied taken written =>
    have within := continues_single ((batchKeys?_unlinked unlinked).trans single)
    have relating := mem_relatingClauses_join directly
    refine ⟨pages_one (within _) taken.paginate (taken.filters (relates_links relating tied)), ?_,
      fun _ => rfl, nofun⟩
    intro on member
    simp only [Part.ons, tablesOnly, TableItem.ons, taken.inner_eq,
      List.flatMap_singleton] at member
    obtain rfl := List.mem_singleton.mp member
    exact ⟨within _, .clauses relating written⟩
  | linked through unscoped single above below unpaged linked written =>
    have within := continues_single (batchKeys?_unscoped through unscoped single)
    refine ⟨pages_none unpaged, ?_, fun _ => rfl, nofun⟩
    intro on member
    refine ⟨within _, ?_⟩
    rcases List.mem_cons.mp member with rfl | later
    · exact .clauses (mem_relatingClauses_junction through (.inl above)) linked
    · obtain rfl := List.mem_singleton.mp later
      exact .clauses (mem_relatingClauses_junction through (.inr (.inl below))) written
  | linkedPage through unscoped single above below tied read taken linked written =>
    have within := continues_single (batchKeys?_unscoped through unscoped single)
    have upper := mem_relatingClauses_junction through (.inl above)
    have lower := mem_relatingClauses_junction through (.inr (.inl below))
    refine ⟨pages_one (within _) taken.paginate (taken.filters (relates_links upper tied)), ?_,
      fun _ => rfl, nofun⟩
    intro on member
    refine ⟨within _, ?_⟩
    simp only [Part.ons, tablesOnly, TableItem.ons, taken.inner_eq, List.flatMap_cons,
      List.flatMap_nil, List.append_assoc, List.mem_append, List.mem_singleton, List.not_mem_nil,
      or_false] at member
    rcases member with within | rfl | rfl
    · exact read.relates lower on within
    · exact .clauses upper linked
    · exact .clauses lower written
  | @key _ p _ boundary =>
    have apart : continues (some p) t = false := by
      rw [continues, t.isBatch_eq, boundary]
      rfl
    refine ⟨?_, nofun, fun _ => rfl, nofun⟩
    rw [apart]
    exact .nil
  | batch unlinked many unpaged confined =>
    have keys := (batchKeys?_unlinked unlinked).trans many
    refine ⟨pages_none unpaged, nofun, nofun, fun _ => ?_⟩
    rw [← pageLabel_unlinked unlinked] at confined
    obtain ⟨tokens, rfl, bound⟩ := (membership_bound _ _).of_outcome confined
    exact .members keys unpaged bound
  | batchPage unlinked many confined taken =>
    have keys := (batchKeys?_unlinked unlinked).trans many
    rw [← pageLabel_unlinked unlinked] at taken ⊢
    have related := Relates.keys keys
    refine ⟨pages_one rfl taken.paginate (taken.filters (by simpa using related)), ?_, nofun,
      fun _ => ?_⟩
    · intro on member
      simp only [Part.ons, tablesOnly, TableItem.ons, taken.inner_eq, List.flatMap_cons,
        List.flatMap_nil, List.append_nil] at member
      obtain rfl := List.mem_singleton.mp member
      exact ⟨rfl, related⟩
    · obtain ⟨more, conditions⟩ := taken.conditions_eq
      exact .rows keys taken.paginate ((bindValues_bound _).of_outcome confined) conditions
  | junctionBatch through many single below unpaged written confined =>
    have keys := batchKeys?_through through many single
    have label := pageLabel_through through
    have relating := mem_relatingClauses_junction through (.inr (.inr ⟨_, many, below⟩))
    refine ⟨pages_none unpaged, ?_, nofun, fun _ => ?_⟩
    · intro on member
      obtain rfl := List.mem_singleton.mp member
      exact ⟨rfl, .clauses relating written⟩
    · rw [← label] at confined ⊢
      obtain ⟨tokens, rfl, bound⟩ := (membership_bound _ _).of_outcome confined
      exact .members keys unpaged bound
  | junctionBatchPage through many single below confined read taken written =>
    have keys := batchKeys?_through through many single
    have relating := mem_relatingClauses_junction through (.inr (.inr ⟨_, many, below⟩))
    rw [← pageLabel_through through] at taken ⊢
    have related := Relates.keys keys
    refine ⟨pages_one rfl taken.paginate (taken.filters (by simpa using related)), ?_, nofun,
      fun _ => ?_⟩
    · intro on member
      refine ⟨rfl, ?_⟩
      simp only [Part.ons, tablesOnly, TableItem.ons, taken.inner_eq, List.flatMap_cons,
        List.flatMap_nil, List.append_assoc, List.nil_append, List.mem_append, List.mem_singleton,
        List.not_mem_nil, or_false] at member
      rcases member with within | rfl | rfl
      · exact read.relates relating on within
      · exact related
      · exact .clauses relating written
    · obtain ⟨more, conditions⟩ := taken.conditions_eq
      exact .rows keys taken.paginate ((bindValues_bound _).of_outcome confined) conditions

end Relations

section Nodes

variable (fl : Flavor)

theorem joinedPart_filters {t : Table} (related : t.relationCount ≤ 1) (parent : Table)
    (path : List String) (scope : Option (List Value)) :
    Yields (FiltersOf (if continues (some parent) t then [t] else []))
      (tablePart fl (some parent) path scope t) := by
  constructor
  intro ps part ps' ran
  obtain ⟨own, relation, rfl, written, reached⟩ :=
    (tablePart_reached fl path related).returned ran
  have relating := reached.filters
  have filters : (if continues (some parent) t then [t] else []).flatMap plainFilters =
      if continues (some parent) t then plainFilters t else [] := by
    split <;> simp
  refine ⟨?_, relating.pages, ?_⟩
  · change List.Forall₂ Writes _ (own ++ relation.conditions)
    rwa [relating.joined rfl, List.append_nil, filters]
  · intro on member
    obtain ⟨continued, relates⟩ := relating.ons on member
    exact ⟨t, by simp [continued], relates⟩

mutual

theorem nodePart_filters : (n : Node) → n.Everywhere Table.Coherent → (parent : Table) →
    (path : List String) → (scope : Option (List Value)) →
    Yields (FiltersOf (if n.isBatch then [] else n.statementTables))
      (nodePart fl (some parent) path scope n)
  | .table t children, coherent, parent, path, scope => by
    have continued : continues (some parent) t = !t.isBatch := by rw [continues]; rfl
    rw [nodePart]
    apply (joinedPart_filters fl coherent.1.related parent path scope).bind
    intro here own
    change Yields (FiltersOf (if t.isBatch then _ else _)) _
    rw [continued] at own ⊢
    cases batch : t.isBatch with
    | true =>
      rw [batch] at own
      exact .pure own
    | false =>
      rw [batch] at own
      apply (childrenPart_filters children coherent.2 t (path ++ [t.label])).bind
      intro rest below
      exact .pure (own.append below)
  | .column c, _, parent, path, scope => .pure filtersOf_nil
  | .composite c, _, parent, path, scope => .pure filtersOf_nil
  | .noop _ _, _, parent, path, scope => .pure filtersOf_nil

theorem childrenPart_filters : (children : List Node) →
    Node.EverywhereIn Table.Coherent children → (parent : Table) → (path : List String) →
    Yields (FiltersOf (Node.joinedTables children)) (childrenPart fl parent path children)
  | [], _, parent, path => .pure filtersOf_nil
  | c :: r, coherent, parent, path => by
    rw [childrenPart]
    apply (nodePart_filters c coherent.1 parent path none).bind
    intro here first
    apply (childrenPart_filters r coherent.2 parent path).bind
    intro rest later
    exact .pure (first.append later)

end

end Nodes

section Texts

/-- Some text stands within another. -/
def Contains (text part : String) : Prop := ∃ front back, text = front ++ part ++ back

namespace Contains

theorem trans {a b c : String} (h : Contains a b) (h' : Contains b c) : Contains a c := by
  obtain ⟨front, back, rfl⟩ := h
  obtain ⟨front', back', rfl⟩ := h'
  exact ⟨front ++ front', back' ++ back, by simp only [String.append_assoc]⟩

theorem last (a b : String) : Contains (a ++ b) b := ⟨a, "", (String.append_empty ..).symm⟩

theorem first (a b : String) : Contains (a ++ b) a :=
  ⟨"", b, by rw [String.empty_append]⟩

theorem join {texts : List String} {text : String} (member : text ∈ texts) :
    Contains (String.join texts) text := by
  obtain ⟨before, after, rfl⟩ := List.append_of_mem member
  exact ⟨String.join before, String.join after, by simp [String.append_assoc]⟩

end Contains

variable (fl : Flavor)

/-- A limit is written also where there is none. -/
theorem Flavor.limit_eq (limit : Option Nat) : ∃ count, fl.limit limit = "LIMIT " ++ count := by
  cases limit with
  | some n => exact ⟨_, rfl⟩
  | none =>
    cases fl with
    | postgresql => exact ⟨"ALL", rfl⟩
    | sqlite => exact ⟨"-1", rfl⟩

/-- The conditions of a page come before its rows are counted off. -/
theorem Page.text_conditions {p : Page} (conditioned : p.conditions ≠ []) :
    Contains (p.text fl) ("\n  WHERE " ++
      String.intercalate " AND " (p.conditions.map (Fragment.text fl)) ++ "\n  ORDER BY " ++
      orderText p.order ++ "\n  " ++ fl.limit p.limit) := by
  have full : ¬p.conditions.isEmpty = true := by simpa using conditioned
  have regroup (a b c d e f g h i j : String) :
      Contains (a ++ (b ++ c) ++ d ++ e ++ f ++ g ++ h ++ i ++ j) (b ++ c ++ d ++ e ++ f ++ g) :=
    ⟨a, h ++ i ++ j, by simp only [String.append_assoc]⟩
  unfold Page.text
  rw [if_neg full]
  exact regroup ..

theorem Statement.sql_conditions {st : Statement} (conditioned : st.part.conditions ≠ []) :
    Contains (st.sql fl) ("\nWHERE " ++
      String.intercalate " AND " (st.part.conditions.map (Fragment.text fl))) := by
  have full : ¬st.part.conditions.isEmpty = true := by simpa using conditioned
  have shown : st.sql fl = _ ++ (if st.part.conditions.isEmpty then "" else _) ++ _ := rfl
  rw [shown, if_neg full]
  exact ⟨_, _, rfl⟩

theorem Statement.sql_table {st : Statement} {item : TableItem} (among : item ∈ st.part.tables) :
    Contains (st.sql fl) ("\n" ++ item.text fl) := by
  have listed : Contains (String.join (st.part.tables.map (fun t => "\n" ++ t.text fl)))
      ("\n" ++ item.text fl) := .join (List.mem_map_of_mem among)
  apply Contains.trans _ listed
  apply (Contains.first _ _).trans
  apply (Contains.first _ _).trans
  exact .last _ _

theorem Statement.sql_page {st : Statement} {page : Page} (member : page ∈ st.part.pages) :
    Contains (st.sql fl) (page.text fl) := by
  obtain ⟨item, among, asked⟩ := List.mem_filterMap.mp member
  have shown : Contains (item.text fl) (page.text fl) := by
    cases item with
    | page p =>
      cases asked
      exact .last _ _
    | lateral outer p on =>
      cases asked
      exact ⟨_, " ON " ++ on.text fl, String.append_assoc ..⟩
    | base _ _ | leftJoin _ _ _ _ | scope _ _ => cases asked
  exact ((sql_table fl among).trans (.last _ _)).trans shown

end Texts

/-- The filters of a statement's tables as the statement has them, each once and in its place. -/
structure StatementFilters {Ctx : Type} (s : Schema Ctx) (cx : Ctx) (fl : Flavor)
    (scope : Option (List Value)) (t : Table) (children : List Node) (st : Statement) : Prop where
  declared : ∀ u ∈ (Node.table t children).statementTables, u.FilteredBySchema s cx
  conditions : ∃ own within below, st.part.conditions = own ++ within ++ below ∧
    List.Forall₂ Writes (plainFilters t) own ∧ Confined t scope within st.part.tables ∧
    List.Forall₂ Writes ((Node.joinedTables children).flatMap plainFilters) below
  pages : List.Forall₂ PageFilters
    ((Node.table t children).statementTables.filter Table.paginate) st.part.pages
  ons : ∀ on ∈ st.part.ons, ∃ u ∈ (Node.table t children).statementTables, Relates u on
  listed : ∀ item ∈ st.part.tables, Contains (st.sql fl) ("\n" ++ item.text fl)
  written : st.part.conditions ≠ [] → Contains (st.sql fl) ("\nWHERE " ++
    String.intercalate " AND " (st.part.conditions.map (Fragment.text fl)))
  paged : ∀ page ∈ st.part.pages, Contains (st.sql fl) (page.text fl) ∧
    (∃ count, fl.limit page.limit = "LIMIT " ++ count) ∧ (page.conditions ≠ [] →
      Contains (page.text fl) ("\n  WHERE " ++
        String.intercalate " AND " (page.conditions.map (Fragment.text fl)) ++ "\n  ORDER BY " ++
        orderText page.order ++ "\n  " ++ fl.limit page.limit))

/-- Every filter that the schema declares for a table of a planned statement stands in it once: in
the table's page before the rows are counted off, or among the conditions of the statement. -/
theorem statement_filters {Ctx : Type} {types : List (ObjectType Ctx)} {queryType : String}
    {schema : Schema Ctx} (built : Schema.build types queryType = .ok schema) {minify : Bool}
    {cx : Ctx} {x : Selection} {root : Node} (planned : schema.plan minify cx x = .ok root)
    {t : Table} {children : List Node} (starts : (t, children) ∈ root.statementRoots) {fl : Flavor}
    {scope : Option (List Value)} {st : Statement}
    (stated : statement fl (.table t children) scope = .ok st) :
    StatementFilters schema cx fl scope t children st := by
  have coherent := Plan.plan_coherent (Schema.valid_of_build built) planned
  have below := Node.everywhere_statementRoot coherent starts
  have declared := Node.everywhere_statementRoot (Plan.plan_declared planned) starts
  obtain ⟨here, rest, _, ranHere, ranRest, part⟩ := statement_table stated
  obtain ⟨own, relation, rfl, written, reached⟩ :=
    (tablePart_reached fl [] below.1.related).returned ranHere
  have relating := reached.filters
  have joined := (childrenPart_filters fl children below.2 t _).returned ranRest
  have tables : (Node.table t children).statementTables = [t] ++ Node.joinedTables children := rfl
  have whole : st.part.tables = relation.tables ++ rest.tables := by rw [← part]; rfl
  refine ⟨?_, ⟨own, relation.conditions, rest.conditions, ?_, written, ?_, joined.conditions⟩, ?_,
    ?_, fun _ => Statement.sql_table fl, Statement.sql_conditions fl, ?_⟩
  · intro u member
    obtain ⟨_, from_⟩ := Node.everywhere_statementTables _ declared u member
    exact from_.filtered
  · rw [← part]
    rfl
  · rw [whole]
    exact (relating.confined rfl).append rest.tables
  · rw [Part.pages, whole, List.filterMap_append, tables, List.filter_append]
    exact List.rel_append relating.pages joined.pages
  · intro on member
    rw [Part.ons, whole, List.flatMap_append] at member
    rw [tables]
    rcases List.mem_append.mp member with here | later
    · exact ⟨t, List.mem_append_left _ (List.mem_singleton_self t), (relating.ons on here).2⟩
    · obtain ⟨u, among, relates⟩ := joined.ons on later
      exact ⟨u, List.mem_append_right _ among, relates⟩
  · intro page member
    exact ⟨Statement.sql_page fl member, Flavor.limit_eq fl page.limit, Page.text_conditions fl⟩

section Cast

def ofThis (column : String) (op : CompareOp) (value : Value) : Clause :=
  .mk .and false (.compare ⟨.this, column⟩ op value)

def onColumns (left right : ColumnRef) : Clause := .mk .and false (.compareColumns left .eq right)

/-- The roles of a film that were not cut, in the order in which they are billed. -/
def rolesConfig : JunctionConfig Unit where
  table := .ident "roles"
  fromParent := none
  toChild := none
  filter := some (fun _ _ => [ofThis "cut" .eq .null])
  orderBy := none
  sortKey := some (fun _ _ => [⟨"billing", "billing", .ascending, .int⟩])
  batch := some ⟨"filmId", "id", some (fun _ _ =>
    [onColumns ⟨.child, "id"⟩ ⟨.parent, "actorId"⟩])⟩

def filmFields : List (Field Unit) := [{ plainField "films" (.object "Film" true) with
  filter := some (fun _ _ => [ofThis "studio" .eq (.int 7)]) }]

def filmTypes : List (ObjectType Unit) :=
  [.ofFields "Query" none filmFields,
    .ofFields "Film" (some (tableOf "films" "id")) [plainField "id" .scalar,
      { plainField "actors" (.object "Actor" true) with
        junction := some rolesConfig
        filter := some (fun _ _ => [ofThis "hidden" .eq (.bool false)])
        paginate := true }],
    .ofFields "Actor" (some (tableOf "actors" "id")) [plainField "id" .scalar,
      plainField "name" .scalar]]

def films : Schema Unit := ⟨filmTypes, .ofFields "Query" none filmFields⟩

theorem build_films : Schema.build filmTypes "Query" = .ok films := by rfl

/-- The first two actors of each film. -/
def castRequest : Selection :=
  ⟨"films", none, .empty, [⟨"actors", none, .ofPairs [("first", .int 2)],
    [⟨"edges", none, .empty, [⟨"node", none, .empty, [.leaf "name" none]⟩]⟩]⟩]⟩

def filmsTable : Table := { productsTable with
  name := .ident "films"
  label := "films"
  fieldName := "films"
  filter := [ofThis "studio" .eq (.int 7)]
  location := ["Query", "films"] }

def filmKeys : Plan.Batch := ⟨⟨"filmId", "filmId", "filmId"⟩, ⟨"id", "id", "id"⟩⟩

def rolesJunction : Plan.Junction where
  table := .ident "roles"
  label := "roles"
  fromParent := none
  toChild := none
  filter := [ofThis "cut" .eq .null]
  orderBy := none
  sortKey := some [⟨"billing", "billing", .ascending, .int⟩]
  batch := some ⟨filmKeys, some [onColumns ⟨.child, "id"⟩ ⟨.parent, "actorId"⟩]⟩

def actorsTable : Table := { productsTable with
  name := .ident "actors"
  label := "actors"
  fieldName := "actors"
  arguments := .ofPairs [("first", .int 2)]
  junction := some rolesJunction
  filter := [ofThis "hidden" .eq (.bool false)]
  paginate := true
  location := ["Query", "films", "actors"] }

def actorNodes : List Node :=
  [.column ⟨.name "id", "id", "id", true, none, actorsTable.location⟩,
    .column ⟨.name "billing", "billing", "billing", false, some "roles", actorsTable.location⟩,
    .column ⟨.name "filmId", "filmId", "filmId", true, some "roles", actorsTable.location⟩,
    .column ⟨.name "name", "name", "name", false, none, actorsTable.location ++ ["name"]⟩]

theorem plan_castRequest : films.plan false () castRequest = .ok (.table filmsTable
    [.column ⟨.name "id", "id", "id", true, none, filmsTable.location⟩,
      .table actorsTable actorNodes]) := by rfl

theorem statement_filters_cast : ∃ st page,
    statement .postgresql (.table actorsTable actorNodes) (some [.int 1, .int 2]) = .ok st ∧
    StatementFilters films () .postgresql (some [.int 1, .int 2]) actorsTable actorNodes st ∧
    st.part.pages = [page] ∧ page.conditions.map (Fragment.text .postgresql) =
      ["\"roles\".\"filmId\" = \"temp\".\"id\"", "\"roles\".\"cut\" IS NULL",
        "\"actors\".\"hidden\" = $3"] ∧
    Contains (st.sql .postgresql) ("\n  WHERE \"roles\".\"filmId\" = \"temp\".\"id\" AND " ++
      "\"roles\".\"cut\" IS NULL AND \"actors\".\"hidden\" = $3\n  ORDER BY " ++
      "\"roles\".\"billing\" ASC\n  LIMIT 3") := by
  have stated : ∃ st page, statement .postgresql (.table actorsTable actorNodes)
      (some [.int 1, .int 2]) = .ok st ∧ st.part.pages = [page] ∧
      page.conditions.map (Fragment.text .postgresql) =
        ["\"roles\".\"filmId\" = \"temp\".\"id\"", "\"roles\".\"cut\" IS NULL",
          "\"actors\".\"hidden\" = $3"] ∧
      page.order = [⟨"roles", "billing", .ascending⟩] ∧ page.limit = some 3 :=
    ⟨_, _, rfl, rfl, rfl, rfl, rfl⟩
  obtain ⟨st, page, stated, pages, conditions, order, limit⟩ := stated
  have filters := statement_filters build_films plan_castRequest
    (List.mem_cons_of_mem _ (List.mem_singleton.mpr rfl)) stated
  have member : page ∈ st.part.pages := by rw [pages]; exact List.mem_singleton_self page
  have conditioned : page.conditions ≠ [] := by
    intro none
    rw [none] at conditions
    cases conditions
  obtain ⟨shown, _, within⟩ := filters.paged page member
  obtain ⟨front, back, written⟩ := within conditioned
  rw [conditions, order, limit] at written
  exact ⟨st, page, stated, filters, pages, conditions, shown.trans ⟨front, back, written⟩⟩

end Cast

end Sql

end TreeQuery
