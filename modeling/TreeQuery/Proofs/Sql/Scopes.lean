import TreeQuery.Proofs.Plan.Sources
import TreeQuery.Proofs.Plan.TableLabels
import TreeQuery.Proofs.Sql.Filters
import TreeQuery.Proofs.Sql.References

/-!
A statement refers to tables that it has. Every label stands for one table of its select, and a page
for each row of other tables sees only those before it.
-/

namespace TreeQuery

open Plan (Node Paging Table)

namespace Plan.Node

mutual

theorem statementTables_labels : (n : Node) →
    (n.statementTables.flatMap Table.labels).Sublist n.tableLabels
  | .table t children => by
    rw [statementTables, List.flatMap_cons, tableLabels]
    exact (joinedTables_labels children).append_left t.labels
  | .column _ | .composite _ | .noop _ _ => List.Sublist.refl _

theorem joinedTables_labels : (nodes : List Node) →
    ((joinedTables nodes).flatMap Table.labels).Sublist (tableLabelsIn nodes)
  | [] => List.Sublist.refl _
  | n :: r => by
    have here : ((if n.isBatch then [] else n.statementTables).flatMap Table.labels).Sublist
        n.tableLabels := by
      split
      · exact List.nil_sublist _
      · exact statementTables_labels n
    rw [joinedTables, List.flatMap_append, tableLabelsIn]
    exact here.append (joinedTables_labels r)

end

end Plan.Node

namespace Sql

def TableItem.label : TableItem → String
  | .base _ a => a
  | .leftJoin _ a _ _ => a
  | .scope _ _ => scopeLabel
  | .page p => p.label
  | .lateral _ p _ => p.label

/-- The labels that some tables have in a select. -/
def labelsOf (tables : List TableItem) : List String := tables.map TableItem.label

@[simp] theorem labelsOf_append (a b : List TableItem) :
    labelsOf (a ++ b) = labelsOf a ++ labelsOf b := List.map_append

/-- The labels in the select of a page. -/
def Page.labels (p : Page) : List String := p.label :: p.inner.toList.map InnerJoin.label

/-- A page refers to its own tables and to those outside of it, which have other labels. -/
structure Page.Scoped (outer : List String) (p : Page) : Prop where
  distinct : (outer ++ p.labels).Nodup
  inner : ∀ j ∈ p.inner, RefersTo p.labels j.on
  conditions : ∀ f ∈ p.conditions, RefersTo (outer ++ p.labels) f
  order : ∀ o ∈ p.order, o.table ∈ p.labels

/-- A table of a select refers to itself and to the tables before it. Only a lateral page sees
those from within. -/
def TableItem.Scoped (before : List String) : TableItem → Prop
  | .base _ _ => True
  | .leftJoin _ a _ on => RefersTo (before ++ [a]) on
  | .scope _ values => ∀ v ∈ values, v.references = []
  | .page p => p.Scoped []
  | .lateral _ p on => p.Scoped before ∧ RefersTo (before ++ [p.label]) on

/-- Some tables of a select, after others. -/
def TablesScoped : List TableItem → List TableItem → Prop
  | _, [] => True
  | before, item :: rest => item.Scoped (labelsOf before) ∧ TablesScoped (before ++ [item]) rest

theorem tablesScoped_append {before a b : List TableItem} :
    TablesScoped before (a ++ b) ↔ TablesScoped before a ∧ TablesScoped (before ++ a) b := by
  induction a generalizing before with
  | nil => simp [TablesScoped]
  | cons item a inductionHypothesis =>
    rw [List.cons_append, TablesScoped, TablesScoped, inductionHypothesis, List.append_assoc,
      List.singleton_append, and_assoc]

/-- What a select item reads from some tables: a column or the columns of a key, the count of a
page, or SQL that the schema computes from a label. -/
inductive SourceScoped {Ctx : Type} (s : Schema Ctx) (cx : Ctx) (tables : List TableItem) :
    Fragment → Prop
  | column {label : String} (column : String) (introduced : label ∈ labelsOf tables) :
      SourceScoped s cx tables [.column label column]
  | composite {t : Table} (fl : Flavor) (columns : List String)
      (introduced : t.label ∈ labelsOf tables) :
      SourceScoped s cx tables (compositeSource fl t columns)
  | total {p : Page} (introduced : p.label ∈ labelsOf tables)
      (page : p ∈ tables.filterMap TableItem.page?) (counted : p.counted = true) :
      SourceScoped s cx tables [.sql (qualified p.label Plan.totalColumn)]
  | authored {label sql : String} (introduced : label ∈ labelsOf tables)
      (authored : Plan.Authored s cx label sql) : SourceScoped s cx tables [.sql sql]

section Sources

variable {Ctx : Type} {s : Schema Ctx} {cx : Ctx} {tables more : List TableItem} {f : Fragment}

theorem labelsOf_mono (within : tables ⊆ more) : labelsOf tables ⊆ labelsOf more :=
  List.map_subset _ within

theorem page_label_mem {p : Page} (page : p ∈ tables.filterMap TableItem.page?) :
    p.label ∈ labelsOf tables := by
  obtain ⟨item, member, asked⟩ := List.mem_filterMap.mp page
  refine List.mem_map.mpr ⟨item, member, ?_⟩
  cases item with
  | page q | lateral _ q _ =>
    cases asked
    rfl
  | base _ _ | leftJoin _ _ _ _ | scope _ _ => cases asked

theorem SourceScoped.mono (h : SourceScoped s cx tables f) (within : tables ⊆ more) :
    SourceScoped s cx more f := by
  have labels := labelsOf_mono within
  cases h with
  | column column introduced => exact .column column (labels introduced)
  | composite fl columns introduced => exact .composite fl columns (labels introduced)
  | total introduced page counted =>
    obtain ⟨item, member, asked⟩ := List.mem_filterMap.mp page
    exact .total (labels introduced) (List.mem_filterMap.mpr ⟨item, within member, asked⟩) counted
  | authored introduced authored => exact .authored (labels introduced) authored

theorem compositeSource_refers (fl : Flavor) (t : Table) (columns : List String) :
    RefersTo [t.label] (compositeSource fl t columns) := by
  have single : ∀ f ∈ columns.map (fun c => [Token.column t.label c]), RefersTo [t.label] f := by
    intro f member
    obtain ⟨c, _, rfl⟩ := List.mem_map.mp member
    simp
  cases fl with
  | postgresql =>
    have listed : RefersTo [t.label] (commaSeparated _) := RefersTo.between rfl single
    exact RefersTo.cons_iff.mpr ⟨by simp, RefersTo.append_iff.mpr ⟨listed, by simp⟩⟩
  | sqlite =>
    have listed : RefersTo [t.label] (between (.sql " || ") _) := RefersTo.between rfl single
    exact RefersTo.cons_iff.mpr ⟨by simp, RefersTo.append_iff.mpr ⟨listed, by simp⟩⟩

theorem SourceScoped.refersTo (h : SourceScoped s cx tables f) : RefersTo (labelsOf tables) f := by
  cases h with
  | column column introduced => simpa using introduced
  | composite fl columns introduced =>
    exact (compositeSource_refers fl _ columns).mono (by simpa using introduced)
  | total _ _ _ | authored _ _ => simp

end Sources

/-- A part of a statement refers to its own tables and to those before it. -/
structure PartScoped {Ctx : Type} (s : Schema Ctx) (cx : Ctx) (before : List TableItem)
    (part : Part) : Prop where
  tables : TablesScoped before part.tables
  items : ∀ i ∈ part.items, SourceScoped s cx (before ++ part.tables) i.source
  conditions : ∀ f ∈ part.conditions, RefersTo (labelsOf (before ++ part.tables)) f
  orders : ∀ o ∈ part.orders, o.table ∈ labelsOf (before ++ part.tables)

section Parts

variable {Ctx : Type} {s : Schema Ctx} {cx : Ctx} {before : List TableItem}

theorem PartScoped.append {part part' : Part} (h : PartScoped s cx before part)
    (h' : PartScoped s cx (before ++ part.tables) part') :
    PartScoped s cx before (part ++ part') := by
  have tables : (part ++ part').tables = part.tables ++ part'.tables := rfl
  have whole : before ++ (part ++ part').tables = before ++ part.tables ++ part'.tables := by
    rw [tables, List.append_assoc]
  have within : before ++ part.tables ⊆ before ++ (part ++ part').tables := by
    rw [whole]
    exact List.subset_append_left _ _
  have labels := labelsOf_mono within
  refine ⟨?_, ?_, ?_, ?_⟩
  · rw [tables]
    exact tablesScoped_append.mpr ⟨h.tables, h'.tables⟩
  · refine List.forall_mem_append.mpr ⟨fun i hi => (h.items i hi).mono within, ?_⟩
    rw [whole]
    exact h'.items
  · refine List.forall_mem_append.mpr ⟨fun f hf => (h.conditions f hf).mono labels, ?_⟩
    rw [whole]
    exact h'.conditions
  · refine List.forall_mem_append.mpr ⟨fun o ho => labels (h.orders o ho), ?_⟩
    rw [whole]
    exact h'.orders

theorem partScoped_items {items : List SelectItem}
    (h : ∀ i ∈ items, SourceScoped s cx before i.source) :
    PartScoped s cx before { Part.empty with items } where
  tables := trivial
  items := by
    rw [Part.empty, List.append_nil]
    exact h
  conditions := nofun
  orders := nofun

end Parts

section Labels

variable {t : Table} {j : Plan.Junction}

theorem labels_unlinked (unlinked : t.junction = none) : t.labels = [t.label] := by
  rw [Table.labels, unlinked]
  rfl

theorem labels_through (through : t.junction = some j) : t.labels = [j.label, t.label] := by
  rw [Table.labels, through]
  rfl

theorem junction_mem_labels (through : t.junction = some j) : j.label ∈ t.labels := by
  simp [labels_through through]

theorem pageLabel_eq (t : Table) : (pageSource t).2 = t.pageLabel := by
  unfold pageSource Table.pageLabel
  cases t.junction <;> rfl

theorem mem_declared {a : Labels} {clauses : List Clause} {x : Labels × List Clause}
    (member : x ∈ declared a clauses) : x.1 = a ∧ clauses ≠ [] := by
  unfold declared at member
  split at member
  · cases member
  · rename_i full
    cases List.mem_singleton.mp member
    exact ⟨rfl, by simpa using full⟩

theorem tableFilters_names (t : Table) : ∀ x ∈ tableFilters t, x.1.names ⊆ t.labels := by
  intro x member
  rcases List.mem_append.mp member with linked | own
  · cases through : t.junction with
    | none =>
      rw [through] at linked
      cases linked
    | some j =>
      rw [through] at linked
      rw [(mem_declared linked).1]
      simpa [Labels.names, Labels.ofTable] using junction_mem_labels through
  · rw [(mem_declared own).1]
    simpa [Labels.names, Labels.ofTable] using t.label_mem_labels

theorem plainFilters_names (t : Table) : ∀ x ∈ plainFilters t, x.1.names ⊆ t.labels := by
  intro x member
  unfold plainFilters at member
  split at member
  · cases member
  · exact tableFilters_names t x member

theorem contribution_labels (t : Table) : ∀ o ∈ contribution t, o.table ∈ t.labels := by
  have own := t.label_mem_labels
  intro o member
  simp only [contribution, tableOrder, List.mem_append] at member
  cases through : t.junction with
  | none =>
    rw [through] at member
    simp only [List.not_mem_nil, false_or, or_false, List.mem_map] at member
    rcases member with ⟨_, _, rfl⟩ | ⟨_, _, rfl⟩ <;> exact own
  | some j =>
    have linked := junction_mem_labels through
    rw [through] at member
    simp only [List.mem_map] at member
    rcases member with ((⟨_, _, rfl⟩ | ⟨_, _, rfl⟩) | ⟨_, _, rfl⟩) | ⟨_, _, rfl⟩
    · exact linked
    · exact own
    · exact linked
    · exact own

theorem offsetOrder?_label {order : OrderBy} {label : String}
    (ordered : t.offsetOrder? = some (order, label)) :
    label = t.label ∧ t.orderBy ≠ none ∨ ∃ j, t.junction = some j ∧ label = j.label := by
  unfold Table.offsetOrder? at ordered
  split at ordered
  · rename_i own
    cases ordered
    exact .inl ⟨rfl, by simp [own]⟩
  · obtain ⟨j, through, ordered⟩ := Option.bind_eq_some_iff.mp ordered
    obtain ⟨_, _, ordered⟩ := Option.map_eq_some_iff.mp ordered
    cases ordered
    exact .inr ⟨j, through, rfl⟩

/-- A page is taken in an order of its table, or else of its junction. -/
theorem pagingLabel_cases {p : Paging} (asked : t.paging = .ok p) :
    pagingLabel p = t.label ∧ (t.sortKey ≠ none ∨ t.orderBy ≠ none) ∨
      ∃ j, t.junction = some j ∧ pagingLabel p = j.label := by
  unfold Table.paging at asked
  split at asked
  · rename_i keyed
    obtain ⟨q, page, rfl⟩ := map_eq_ok.mp asked
    rw [pagingLabel, (Table.keysetPage_key page).2]
    exact (Plan.keyset?_label keyed).imp_left (And.imp_right .inl)
  · rename_i ordered
    obtain ⟨q, page, rfl⟩ := map_eq_ok.mp asked
    rw [pagingLabel, (Table.offsetPage_order page).2]
    exact (offsetOrder?_label ordered).imp_left (And.imp_right .inr)
  · cases asked

/-- A page has the tables that its filters and its order refer to. -/
structure Covers (t : Table) (inner : Option InnerJoin) (labels : List String) : Prop where
  among : labels.Sublist t.labels
  filters : ∀ x ∈ tableFilters t, x.1.names ⊆ labels
  order : ∀ p, t.paging = .ok p → pagingLabel p ∈ labels
  on : ∀ j ∈ inner, RefersTo labels j.on

theorem covers_unlinked (unlinked : t.junction = none) : Covers t none [t.label] := by
  have labels := labels_unlinked unlinked
  refine ⟨?_, ?_, ?_, nofun⟩
  · rw [labels]
  · rw [← labels]
    exact tableFilters_names t
  · intro p asked
    rcases pagingLabel_cases asked with ⟨own, _⟩ | ⟨j, through, _⟩
    · simp [own]
    · rw [unlinked] at through
      cases through

/-- The child of a junction is joined within a page wherever the page refers to it. -/
theorem Inner.covers {toChild : List Clause} {inner : Option InnerJoin}
    (through : t.junction = some j) (read : Inner t j toChild inner) :
    Covers t inner (j.label :: inner.toList.map InnerJoin.label) := by
  have labels := labels_through through
  cases read with
  | unread unfiltered unordered unkeyed =>
    refine ⟨?_, ?_, ?_, nofun⟩
    · rw [labels]
      exact List.singleton_sublist.mpr (List.mem_cons_self ..)
    · intro x member
      have linked : x ∈ declared (.ofTable j.label) j.filter := by
        simpa [tableFilters, through, unfiltered, declared] using member
      rw [(mem_declared linked).1]
      simp [Labels.names, Labels.ofTable]
    · intro p asked
      rcases pagingLabel_cases asked with ⟨_, used⟩ | ⟨k, same, own⟩
      · rcases used with key | order
        · exact absurd unkeyed key
        · exact absurd unordered order
      · cases through.symm.trans same
        simp [own]
  | joined written =>
    have both : j.label :: [t.label] = t.labels := labels.symm
    simp only [Option.toList_some, List.map_cons, List.map_nil, both]
    refine ⟨List.Sublist.refl _, tableFilters_names t, ?_, ?_⟩
    · intro p asked
      rcases pagingLabel_cases asked with ⟨own, _⟩ | ⟨k, same, own⟩
      · rw [own]
        exact t.label_mem_labels
      · rw [own]
        exact junction_mem_labels same
    · intro join member
      cases member
      exact ((predicate_refers _ _).of_outcome written).mono
        (by simp [Labels.names, Labels.ofJoin, labels])

end Labels

section Pages

variable {t : Table} {links : List Fragment} {inner : Option InnerJoin} {page : Page}

theorem PageFor.labels_eq (taken : PageFor t links inner page) :
    page.labels = (pageSource t).2 :: inner.toList.map InnerJoin.label := by
  obtain ⟨p, filters, past, _, _, _, rfl⟩ := taken.made
  rfl

theorem PageFor.label_eq (taken : PageFor t links inner page) : page.label = (pageSource t).2 := by
  obtain ⟨p, filters, past, _, _, _, rfl⟩ := taken.made
  rfl

theorem PageFor.scoped (taken : PageFor t links inner page) (covers : Covers t inner page.labels)
    {outer : List String} (distinct : (outer ++ t.labels).Nodup)
    (tied : ∀ f ∈ links, RefersTo (outer ++ [page.label]) f) : page.Scoped outer := by
  have own : page.labels ⊆ outer ++ page.labels := List.subset_append_right _ _
  have first : outer ++ [page.label] ⊆ outer ++ page.labels :=
    List.append_subset.mpr ⟨List.subset_append_left _ _, by simp [Page.labels]⟩
  obtain ⟨p, filters, past, asked, written, beyond, rfl⟩ := taken.made
  refine ⟨distinct.sublist (covers.among.append_left outer), covers.on, ?_, ?_⟩
  · refine List.forall_mem_append.mpr ⟨List.forall_mem_append.mpr ⟨?_, ?_⟩, ?_⟩
    · exact fun f hf => (tied f hf).mono first
    · exact refersTo_of_writes written (fun x hx => List.Subset.trans (covers.filters x hx) own)
    · intro f hf
      have cursor := (cursorCondition_refers p).of_outcome beyond f hf
      exact cursor.mono (by simpa using own (covers.order p asked))
  · intro o ho
    rw [pagingOrder_label p o ho]
    exact covers.order p asked

theorem PageFor.scoped_own (taken : PageFor t links none page) (unlinked : t.junction = none)
    {outer : List String} (distinct : (outer ++ t.labels).Nodup)
    (tied : ∀ f ∈ links, RefersTo (outer ++ [t.label]) f) :
    page.Scoped outer ∧ page.label = t.label := by
  have label := taken.label_eq.trans (pageLabel_unlinked unlinked)
  have covers := covers_unlinked unlinked
  have labels : page.labels = [t.label] := by
    rw [taken.labels_eq, pageLabel_unlinked unlinked]
    rfl
  rw [← labels] at covers
  rw [← label] at tied
  exact ⟨taken.scoped covers distinct tied, label⟩

theorem PageFor.scoped_through {j : Plan.Junction} {toChild : List Clause}
    (taken : PageFor t links inner page) (through : t.junction = some j)
    (read : Inner t j toChild inner) {outer : List String} (distinct : (outer ++ t.labels).Nodup)
    (tied : ∀ f ∈ links, RefersTo (outer ++ [j.label]) f) :
    page.Scoped outer ∧ page.label = j.label := by
  have label := taken.label_eq.trans (pageLabel_through through)
  have covers := read.covers through
  have labels : page.labels = j.label :: inner.toList.map InnerJoin.label := by
    rw [taken.labels_eq, pageLabel_through through]
  rw [← labels] at covers
  rw [← label] at tied
  exact ⟨taken.scoped covers distinct tied, label⟩

/-- The pages of a table that pages by offset count their rows. -/
theorem PageFor.counted (taken : PageFor t links inner page)
    (offset : t.isOffsetPaginated = true) : page.counted = true := by
  obtain ⟨p, filters, past, asked, _, _, rfl⟩ := taken.made
  simp only [Table.isOffsetPaginated, Bool.and_eq_true, Option.isNone_iff_eq_none] at offset
  obtain ⟨⟨_, unkeyed⟩, ordered⟩ := offset
  obtain ⟨_, ordered⟩ := Option.isSome_iff_exists.mp ordered
  rw [Table.paging, unkeyed, ordered] at asked
  obtain ⟨q, _, rfl⟩ := map_eq_ok.mp asked
  rfl

end Pages

/-- Some tables are a table and its junction. In a batch the keys may come before them. -/
def TablesOf (parent : Option Table) (t : Table) (tables : List TableItem) : Prop :=
  labelsOf tables = t.labels ∨ parent = none ∧ labelsOf tables = scopeLabel :: t.labels

theorem TablesOf.labels_subset {parent : Option Table} {t : Table} {tables : List TableItem}
    (h : TablesOf parent t tables) : t.labels ⊆ labelsOf tables := by
  rcases h with labels | ⟨_, labels⟩
  · rw [labels]
    exact List.Subset.refl _
  · rw [labels]
    exact List.subset_cons_self _ _

/-- Some tables have a page that counts its rows, if a table is paged by offset. -/
def Counts (t : Table) (tables : List TableItem) : Prop :=
  t.isOffsetPaginated = true →
    ∃ page ∈ tables.filterMap TableItem.page?, page.counted = true ∧ page.label = t.pageLabel

/-- What a table's relation adds refers to the table, its junction and what stands before. -/
structure RelationScoped (before : List TableItem) (parent : Option Table) (t : Table)
    (part : Part) : Prop where
  tables : TablesScoped before part.tables
  continued : continues parent t = true ∨ part.tables = []
  labels : continues parent t = true → TablesOf parent t part.tables
  conditions : ∀ f ∈ part.conditions, continues parent t = true ∧ RefersTo t.labels f
  items : ∀ i ∈ part.items, ∃ p column, parent = some p ∧ i.source = [.column p.label column]
  orders : part.orders = []
  counted : continues parent t = true → Counts t part.tables

section Relations

variable {t : Table} {path : List String} {parent : Option Table} {scope : Option (List Value)}
variable {part : Part} {before : List TableItem}

theorem counts_unpaged {tables : List TableItem} (unpaged : t.paginate = false) :
    Counts t tables := by
  intro offset
  simp [Table.isOffsetPaginated, unpaged] at offset

theorem PageFor.counts {links : List Fragment} {inner : Option InnerJoin} {page : Page}
    {tables : List TableItem} (taken : PageFor t links inner page)
    (among : page ∈ tables.filterMap TableItem.page?) : Counts t tables :=
  fun offset => ⟨page, among, taken.counted offset, taken.label_eq.trans (pageLabel_eq t)⟩

theorem ofJoin_names (parent child : String) :
    (Labels.ofJoin parent child).names = [child, parent, child] := rfl

theorem correlation_refers (label : String) (keys : Plan.Batch) :
    RefersTo [label, scopeLabel] (correlation label keys) := by
  simp [correlation]

/-- A condition of a join refers to its two sides. -/
theorem on_refers {upper lower : String} {clauses : List Clause} {on : Fragment}
    {labels : List String} (written : Outcome (predicate (.ofJoin upper lower) clauses) on)
    (above : upper ∈ labels) : RefersTo (labels ++ [lower]) on :=
  ((predicate_refers _ _).of_outcome written).mono (by simp [ofJoin_names, above])

theorem links_refer {upper lower : String} {clauses : List Clause} {links : List Fragment}
    {labels : List String}
    (tied : List.Forall₂ Writes (declared (.ofJoin upper lower) clauses) links)
    (above : upper ∈ labels) : ∀ f ∈ links, RefersTo (labels ++ [lower]) f := by
  apply refersTo_of_writes tied
  intro x member
  rw [(mem_declared member).1]
  simp [ofJoin_names, above]

theorem Reached.scoped (reached : Reached path t parent scope part)
    (above : ∀ p, parent = some p → p.label ∈ labelsOf before)
    (root : parent = none → before = [] ∧ scopeLabel ∉ t.labels)
    (distinct : continues parent t = true → (labelsOf before ++ t.labels).Nodup) :
    RelationScoped before parent t part := by
  cases reached with
  | root unlinked single unpaged =>
    refine ⟨⟨trivial, trivial⟩, .inl rfl, fun _ => .inl ?_, nofun, nofun, rfl,
      fun _ => counts_unpaged unpaged⟩
    rw [labels_unlinked unlinked]
    rfl
  | rootPage unlinked single taken =>
    obtain ⟨rfl, _⟩ := root rfl
    obtain ⟨inside, label⟩ := taken.scoped_own unlinked (distinct rfl) (by simp)
    refine ⟨⟨inside, trivial⟩, .inl rfl, fun _ => .inl ?_, nofun, nofun, rfl,
      fun _ => taken.counts (List.mem_singleton_self _)⟩
    rw [labels_unlinked unlinked, ← label]
    rfl
  | @joined _ p join on directly unlinked single unpaged written =>
    have within := continues_single ((batchKeys?_unlinked unlinked).trans single) (some p)
    refine ⟨⟨on_refers written (above p rfl), trivial⟩, .inl within, fun _ => .inl ?_, nofun, nofun,
      rfl, fun _ => counts_unpaged unpaged⟩
    rw [labels_unlinked unlinked]
    rfl
  | @joinedPage _ p join links page on directly unlinked single tied taken written =>
    have within := continues_single ((batchKeys?_unlinked unlinked).trans single) (some p)
    have outside := above p rfl
    obtain ⟨inside, label⟩ :=
      taken.scoped_own unlinked (distinct within) (links_refer tied outside)
    rw [← label] at written
    refine ⟨⟨⟨inside, on_refers written outside⟩, trivial⟩, .inl within, fun _ => .inl ?_, nofun,
      nofun, rfl, fun _ => taken.counts (List.mem_singleton_self _)⟩
    rw [labels_unlinked unlinked, ← label]
    rfl
  | @linked _ p j fromParent toChild link on through unscoped single _ _ unpaged linked written =>
    have within := continues_single (batchKeys?_unscoped through unscoped single) (some p)
    have lower : RefersTo (labelsOf (before ++ [.leftJoin j.table j.label false link]) ++ [t.label])
        on := on_refers written (by simp [labelsOf, TableItem.label])
    refine ⟨⟨on_refers linked (above p rfl), lower, trivial⟩, .inl within, fun _ => .inl ?_, nofun,
      nofun, rfl, fun _ => counts_unpaged unpaged⟩
    rw [labels_through through]
    rfl
  | @linkedPage _ p j _ _ links inner page link on through unscoped single _ _ tied read taken
      linked written =>
    have within := continues_single (batchKeys?_unscoped through unscoped single) (some p)
    have outside := above p rfl
    obtain ⟨inside, label⟩ :=
      taken.scoped_through through read (distinct within) (links_refer tied outside)
    rw [← label] at linked written
    have lower : RefersTo (labelsOf (before ++ [.lateral true page link]) ++ [t.label]) on :=
      on_refers written (by simp [labelsOf, TableItem.label])
    refine ⟨⟨⟨inside, on_refers linked outside⟩, lower, trivial⟩, .inl within, fun _ => .inl ?_,
      nofun, nofun, rfl, fun _ => taken.counts (List.mem_cons_self ..)⟩
    rw [labels_through through, ← label]
    rfl
  | @key _ p keys boundary =>
    have apart : ¬continues (some p) t = true := by
      rw [continues, t.isBatch_eq, boundary]
      simp
    refine ⟨trivial, .inr rfl, fun within => absurd within apart, nofun, ?_, rfl,
      fun within => absurd within apart⟩
    intro i member
    obtain rfl := List.mem_singleton.mp member
    exact ⟨p, keys.parentKey.column, rfl, rfl⟩
  | @batch values b within unlinked many unpaged confined =>
    have own : t.labels = [t.label] := labels_unlinked unlinked
    refine ⟨⟨trivial, trivial⟩, .inl rfl, fun _ => .inl ?_, ?_, nofun, rfl,
      fun _ => counts_unpaged unpaged⟩
    · rw [own]
      rfl
    · intro f member
      obtain rfl := List.mem_singleton.mp member
      exact ⟨rfl, (membership_refers (by simp [own]) values).of_outcome confined⟩
  | @batchPage values b keys page unlinked many confined taken =>
    obtain ⟨rfl, free⟩ := root rfl
    have tie : RefersTo ([scopeLabel] ++ [t.label]) (correlation t.label b) :=
      (correlation_refers t.label b).mono (by simp)
    have apart : ([scopeLabel] ++ t.labels).Nodup := List.nodup_cons.mpr ⟨free, distinct rfl⟩
    obtain ⟨inside, label⟩ :=
      taken.scoped_own unlinked apart (List.forall_mem_singleton.mpr tie)
    have plain := (bindValues_refers values).of_outcome confined
    refine ⟨⟨plain, ⟨inside, ?_⟩, trivial⟩, .inl rfl, fun _ => .inr ⟨rfl, ?_⟩, nofun, nofun, rfl,
      fun _ => taken.counts (List.mem_singleton_self _)⟩
    · rw [label]
      exact tie
    · rw [labels_unlinked unlinked, ← label]
      rfl
  | @junctionBatch values j b join on within through many single below unpaged written confined =>
    have both : t.labels = [j.label, t.label] := labels_through through
    have lower : RefersTo (labelsOf (before ++ [.base j.table j.label]) ++ [t.label]) on :=
      on_refers written (by simp [labelsOf, TableItem.label])
    refine ⟨⟨trivial, lower, trivial⟩, .inl rfl, fun _ => .inl ?_, ?_, nofun, rfl,
      fun _ => counts_unpaged unpaged⟩
    · rw [both]
      rfl
    · intro f member
      obtain rfl := List.mem_singleton.mp member
      exact ⟨rfl, (membership_refers (by simp [both]) values).of_outcome confined⟩
  | @junctionBatchPage values j b join keys inner page on through many single below confined read
      taken written =>
    obtain ⟨rfl, free⟩ := root rfl
    have tie : RefersTo ([scopeLabel] ++ [j.label]) (correlation j.label b.keys) :=
      (correlation_refers j.label b.keys).mono (by simp)
    have apart : ([scopeLabel] ++ t.labels).Nodup := List.nodup_cons.mpr ⟨free, distinct rfl⟩
    obtain ⟨inside, label⟩ :=
      taken.scoped_through through read apart (List.forall_mem_singleton.mpr tie)
    have lower : RefersTo ([scopeLabel, j.label] ++ [t.label]) on :=
      on_refers written (by simp)
    have plain := (bindValues_refers values).of_outcome confined
    refine ⟨⟨plain, ⟨inside, ?_⟩, ?_, trivial⟩, .inl rfl, fun _ => .inr ⟨rfl, ?_⟩, nofun, nofun,
      rfl, fun _ => taken.counts (List.mem_singleton_self _)⟩
    · rw [label]
      exact tie
    · rw [← label] at lower
      exact lower
    · rw [labels_through through, ← label]
      rfl

end Relations

/-- A table has its place in a select, so that what is below it can refer to it. -/
structure Placed (t : Table) (tables : List TableItem) : Prop where
  labels : t.labels ⊆ labelsOf tables
  counted : Counts t tables

section Places

variable {Ctx : Type} {s : Schema Ctx} {cx : Ctx} {t : Table} {tables more : List TableItem}

theorem Placed.label (h : Placed t tables) : t.label ∈ labelsOf tables :=
  h.labels (t.label_mem_labels)

theorem Placed.mono (h : Placed t tables) (within : tables ⊆ more) : Placed t more where
  labels := List.Subset.trans h.labels (labelsOf_mono within)
  counted := by
    intro offset
    obtain ⟨page, among, counted⟩ := h.counted offset
    obtain ⟨item, member, asked⟩ := List.mem_filterMap.mp among
    exact ⟨page, List.mem_filterMap.mpr ⟨item, within member, asked⟩, counted⟩

theorem columnSource_scoped (placed : Placed t tables) {c : Plan.Column}
    (reads : Plan.ReadsFrom s cx t c) : SourceScoped s cx tables (columnSource t c) := by
  unfold columnSource
  cases reads with
  | own source unlinked =>
    rw [source, unlinked]
    exact .column _ placed.label
  | linked source through linked =>
    rw [source, linked]
    exact .column _ (placed.labels (junction_mem_labels through))
  | total counted source =>
    obtain ⟨page, among, counts, label⟩ := placed.counted counted
    rw [source, ← label]
    exact .total (page_label_mem among) among counts
  | authored source authored =>
    rw [source]
    exact .authored placed.label authored

end Places

section Nodes

variable {Ctx : Type} {s : Schema Ctx} {cx : Ctx} (fl : Flavor)

/-- What a table adds to a statement. Only if the statement goes on below it, that are tables. -/
structure TableScoped (s : Schema Ctx) (cx : Ctx) (before : List TableItem)
    (parent : Option Table) (t : Table) (part : Part) : Prop where
  refers : PartScoped s cx before part
  apart : continues parent t = false → part.tables = []
  labels : continues parent t = true → TablesOf parent t part.tables
  counted : continues parent t = true → Counts t part.tables

theorem TableScoped.placed {before : List TableItem} {parent : Option Table} {t : Table}
    {part : Part} (h : TableScoped s cx before parent t part)
    (within : continues parent t = true) : Placed t part.tables :=
  ⟨(h.labels within).labels_subset, h.counted within⟩

variable {t : Table} {before : List TableItem}

theorem tablePart_scoped (related : t.relationCount ≤ 1) {parent : Option Table}
    (path : List String) (scope : Option (List Value))
    (above : ∀ p, parent = some p → p.label ∈ labelsOf before)
    (root : parent = none → before = [] ∧ scopeLabel ∉ t.labels)
    (distinct : continues parent t = true → (labelsOf before ++ t.labels).Nodup) :
    Yields (TableScoped s cx before parent t) (tablePart fl parent path scope t) := by
  constructor
  intro ps part ps' ran
  obtain ⟨own, relation, rfl, written, reached⟩ := (tablePart_reached fl path related).returned ran
  have here := reached.scoped above root distinct
  have seen (within : continues parent t = true) :
      t.labels ⊆ labelsOf (before ++ relation.tables) := by
    rw [labelsOf_append]
    exact List.Subset.trans (here.labels within).labels_subset (List.subset_append_right _ _)
  refine ⟨⟨here.tables, ?_, List.forall_mem_append.mpr ⟨?_, ?_⟩, ?_⟩, ?_, here.labels, here.counted⟩
  · intro i member
    obtain ⟨p, column, below, source⟩ := here.items i member
    rw [source]
    exact .column column (labelsOf_mono (List.subset_append_left _ _) (above p below))
  · apply refersTo_of_writes written
    intro x member
    split at member
    · rename_i within
      exact List.Subset.trans (plainFilters_names t x member) (seen within)
    · cases member
  · intro f member
    obtain ⟨within, refers⟩ := here.conditions f member
    exact refers.mono (seen within)
  · intro o member
    rcases List.mem_append.mp member with own | other
    · split at own
      · rename_i within
        exact seen within (contribution_labels t o own)
      · cases own
    · rw [here.orders] at other
      cases other
  · intro apart
    rcases here.continued with within | none
    · cases within.symm.trans apart
    · exact none

/-- A part that is scoped has the labels of some tables, and no others. -/
structure ScopesOf (s : Schema Ctx) (cx : Ctx) (before : List TableItem) (ts : List Table)
    (part : Part) : Prop where
  refers : PartScoped s cx before part
  labels : labelsOf part.tables = ts.flatMap Table.labels

theorem ScopesOf.append {ts us : List Table} {part part' : Part}
    (h : ScopesOf s cx before ts part) (h' : ScopesOf s cx (before ++ part.tables) us part') :
    ScopesOf s cx before (ts ++ us) (part ++ part') where
  refers := h.refers.append h'.refers
  labels := by
    have tables : (part ++ part').tables = part.tables ++ part'.tables := rfl
    rw [tables, labelsOf_append, h.labels, h'.labels, List.flatMap_append]

theorem scopesOf_nil {items : List SelectItem}
    (h : ∀ i ∈ items, SourceScoped s cx before i.source) :
    ScopesOf s cx before [] { Part.empty with items } :=
  ⟨partScoped_items h, rfl⟩

mutual

/-- Labels that differ from those before stay apart, node by node, and each node refers to the table
above it, which has its place by then. -/
theorem nodePart_scoped : (n : Node) → n.Everywhere Table.Coherent →
    n.Everywhere (Table.Declared s cx) → (parent : Table) → Plan.Sourced s cx parent [n] →
    (path : List String) → (scope : Option (List Value)) → (before : List TableItem) →
    Placed parent before →
    (labelsOf before ++
      (if n.isBatch then [] else n.statementTables).flatMap Table.labels).Nodup →
    Yields (ScopesOf s cx before (if n.isBatch then [] else n.statementTables))
      (nodePart fl (some parent) path scope n)
  | .table t children, coherent, declared, parent, _, path, scope, before, placed, distinct => by
    have continued : continues (some parent) t = !t.isBatch := by rw [continues]; rfl
    have above : ∀ p, some parent = some p → p.label ∈ labelsOf before := by
      intro p same
      cases same
      exact placed.label
    rw [nodePart]
    change (_ ++ List.flatMap Table.labels (if t.isBatch then _ else _)).Nodup at distinct
    change Yields (ScopesOf s cx before (if t.isBatch then _ else _)) _
    have own : continues (some parent) t = true → (labelsOf before ++ t.labels).Nodup := by
      intro within
      have single : t.isBatch = false := by simpa [continued] using within
      rw [single] at distinct
      exact distinct.sublist ((List.sublist_append_left _ _).append_left _)
    apply (tablePart_scoped fl coherent.1.related path scope above nofun own).bind
    intro here table
    cases batch : t.isBatch with
    | true =>
      -- Of a boundary only a key of the parent is selected, so that no table is added.
      have apart : continues (some parent) t = false := by rw [continued, batch]; rfl
      rw [apart]
      refine .pure ⟨table.refers, ?_⟩
      rw [table.apart apart]
      rfl
    | false =>
      have within : continues (some parent) t = true := by rw [continued, batch]; rfl
      rw [batch] at distinct
      rw [within]
      have labels : labelsOf here.tables = t.labels := by
        rcases table.labels within with labels | ⟨root, _⟩
        · exact labels
        · cases root
      have below : Yields _ (childrenPart fl t (path ++ [t.label]) children) :=
        childrenPart_scoped children coherent.2 declared.2 t declared.1.sourced
          (path ++ [t.label]) (before ++ here.tables)
          ((table.placed within).mono (List.subset_append_right _ _))
          (by
            rw [labelsOf_append, labels, List.append_assoc]
            exact distinct)
      apply below.bind
      intro rest later
      have first : ScopesOf s cx before [t] here := ⟨table.refers, by simpa using labels⟩
      exact .pure (first.append later)
  | .column c, _, _, parent, sourced, path, scope, before, placed, _ => by
    apply Yields.pure
    apply scopesOf_nil
    rw [List.forall_mem_singleton]
    exact columnSource_scoped placed (sourced c (List.mem_singleton_self _))
  | .composite c, _, _, parent, _, path, scope, before, placed, _ => by
    apply Yields.pure
    apply scopesOf_nil
    rw [List.forall_mem_singleton]
    exact .composite fl c.columns placed.label
  | .noop _ _, _, _, parent, _, path, scope, before, _, _ => .pure (scopesOf_nil nofun)

theorem childrenPart_scoped : (children : List Node) →
    Node.EverywhereIn Table.Coherent children →
    Node.EverywhereIn (Table.Declared s cx) children → (parent : Table) →
    Plan.Sourced s cx parent children → (path : List String) → (before : List TableItem) →
    Placed parent before →
    (labelsOf before ++ (Node.joinedTables children).flatMap Table.labels).Nodup →
    Yields (ScopesOf s cx before (Node.joinedTables children))
      (childrenPart fl parent path children)
  | [], _, _, parent, _, path, before, _, _ => .pure (scopesOf_nil nofun)
  | c :: r, coherent, declared, parent, sourced, path, before, placed, distinct => by
    rw [Node.joinedTables, List.flatMap_append, ← List.append_assoc] at distinct
    have own : Plan.Sourced s cx parent [c] := by
      intro d member
      exact sourced d (List.mem_cons.mpr (.inl (List.mem_singleton.mp member)))
    have others : Plan.Sourced s cx parent r := fun d member =>
      sourced d (List.mem_cons_of_mem c member)
    rw [childrenPart]
    apply (nodePart_scoped c coherent.1 declared.1 parent own path none before placed
      (distinct.sublist (List.sublist_append_left _ _))).bind
    intro here first
    have below := childrenPart_scoped r coherent.2 declared.2 parent others path
      (before ++ here.tables) (placed.mono (List.subset_append_left _ _))
      (by rwa [labelsOf_append, first.labels])
    apply below.bind
    intro rest later
    exact .pure (first.append later)

end

end Nodes

/-- What a statement refers to is a table that it has, and no label of its select stands for two. -/
structure StatementScoped {Ctx : Type} (s : Schema Ctx) (cx : Ctx) (st : Statement) : Prop where
  distinct : (labelsOf st.part.tables).Nodup
  tables : TablesScoped [] st.part.tables
  items : ∀ i ∈ st.part.items, SourceScoped s cx st.part.tables i.source
  conditions : ∀ f ∈ st.part.conditions, RefersTo (labelsOf st.part.tables) f
  orders : ∀ o ∈ st.part.orders, o.table ∈ labelsOf st.part.tables

/-- The labels of a planned statement's tables differ, also from that of the keys of a batch. -/
theorem statementTables_distinct {Ctx : Type} {schema : Schema Ctx} {minify : Bool} {cx : Ctx}
    {x : Selection} {root : Node} (planned : schema.plan minify cx x = .ok root) {t : Table}
    {children : List Node} (starts : (t, children) ∈ root.statementRoots) :
    (scopeLabel :: (Node.table t children).statementTables.flatMap Table.labels).Nodup := by
  have reserved : Plan.Namespace.reserved = [scopeLabel] := rfl
  have named : (scopeLabel :: root.tableLabels).Nodup := by
    rw [← List.singleton_append, ← reserved]
    exact Plan.plan_tableLabels planned
  have among := (Node.statementTables_labels _).trans (Node.tableLabels_statementRoot starts)
  exact named.sublist (among.cons_cons scopeLabel)

/-- Every planned statement refers only to tables that its select has, and its pages only to those
that they have themselves or that come before them. -/
theorem statement_scoped {Ctx : Type} {types : List (ObjectType Ctx)} {queryType : String}
    {schema : Schema Ctx} (built : Schema.build types queryType = .ok schema) {minify : Bool}
    {cx : Ctx} {x : Selection} {root : Node} (planned : schema.plan minify cx x = .ok root)
    {t : Table} {children : List Node} (starts : (t, children) ∈ root.statementRoots) {fl : Flavor}
    {scope : Option (List Value)} {st : Statement}
    (stated : statement fl (.table t children) scope = .ok st) : StatementScoped schema cx st := by
  have coherent := Node.everywhere_statementRoot
    (Plan.plan_coherent (Schema.valid_of_build built) planned) starts
  have declared := Node.everywhere_statementRoot (Plan.plan_declared planned) starts
  have all := statementTables_distinct planned starts
  rw [Node.statementTables, List.flatMap_cons] at all
  have own : (scopeLabel :: t.labels).Nodup :=
    all.sublist ((List.sublist_append_left _ _).cons_cons _)
  obtain ⟨free, distinct⟩ := List.nodup_cons.mp own
  have above : ∀ p : Table, none = some p → p.label ∈ labelsOf [] :=
    fun _ impossible => nomatch impossible
  obtain ⟨here, rest, _, ranHere, ranRest, part⟩ := statement_table stated
  have table : TableScoped schema cx [] none t here :=
    (tablePart_scoped fl coherent.1.related [] scope above (fun _ => ⟨rfl, free⟩)
      (fun _ => distinct)).returned ranHere
  have apart : (labelsOf here.tables ++
      (Node.joinedTables children).flatMap Table.labels).Nodup := by
    rcases table.labels rfl with labels | ⟨_, labels⟩
    · rw [labels]
      exact (List.nodup_cons.mp all).2
    · rw [labels]
      exact all
  have below : ScopesOf schema cx here.tables (Node.joinedTables children) rest :=
    (childrenPart_scoped fl children coherent.2 declared.2 t declared.1.sourced _ here.tables
      (table.placed rfl) apart).returned ranRest
  have whole : PartScoped schema cx [] st.part := by
    rw [← part]
    exact table.refers.append below.refers
  refine ⟨?_, whole.tables, whole.items, whole.conditions, whole.orders⟩
  rw [← part]
  change (labelsOf (here.tables ++ rest.tables)).Nodup
  rwa [labelsOf_append, below.labels]

/-- The page of the roles joins the actors for itself, as it is filtered by them. -/
theorem statement_scoped_cast : ∃ st,
    statement .postgresql (.table actorsTable actorNodes) (some [.int 1, .int 2]) = .ok st ∧
    StatementScoped films () st ∧ labelsOf st.part.tables = ["temp", "roles", "actors"] ∧
    st.part.pages.map Page.labels = [["roles", "actors"]] := by
  have stated : statement .postgresql (.table actorsTable actorNodes)
      (some [.int 1, .int 2]) = .ok _ := rfl
  refine ⟨_, stated, statement_scoped build_films plan_castRequest ?_ stated, rfl, rfl⟩
  exact List.mem_cons_of_mem _ (List.mem_singleton.mpr rfl)

end Sql

end TreeQuery
