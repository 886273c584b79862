import TreeQuery.Proofs.Sql.Selectable
import TreeQuery.Proofs.Sql.Vocabulary

/-!
Statements of the restricted dialect. Only a page of the statement's first table, one by keyset and
without a relation, can be selected in it, and whatever else is refused there can be selected in
the full dialect.
-/

namespace TreeQuery

open Plan (Junction Node Paging Table)

namespace Sql

variable {texts : List String}

theorem spelled_tableText {name : TableName} (authored : name.authorTexts ⊆ texts) :
    Spelled texts (tableText name) := by
  cases name with
  | ident name =>
    apply Spelled.intercalate (by decide)
    intro s member
    obtain ⟨segment, _, rfl⟩ := List.mem_map.mp member
    exact .name segment
  | expr sql => exact .authored (authored (List.mem_singleton.mpr rfl)) (List.infix_refl _)

theorem spelled_orderText (os : List OrderTerm) : Spelled texts (orderText os) := by
  apply Spelled.intercalate (by decide)
  intro s member
  obtain ⟨o, _, rfl⟩ := List.mem_map.mp member
  have column : Spelled texts (qualified o.table o.column) :=
    ((Spelled.name o.table).append (.word (by decide))).append (.name o.column)
  have direction : Spelled texts o.direction.sql := by
    cases o.direction <;> exact .word (by decide)
  exact (column.append (.word (by decide))).append direction

theorem spelled_conditions (introduction : String) (word : introduction ∈ restrictedWords)
    {fs : List Fragment} (plain : ∀ f ∈ fs, Fragment.Plain texts f) :
    Spelled texts (if fs.isEmpty then "" else introduction ++ conjunction .sqlite fs) := by
  split
  · exact .empty
  · apply (Spelled.word word).append
    apply Spelled.intercalate (by decide)
    intro s member
    obtain ⟨f, among, rfl⟩ := List.mem_map.mp member
    exact (plain f among).spelled

/-- A page that the restricted dialect has: its rows are neither counted nor skipped, and it reads
one table. -/
structure Page.Restricted (texts : List String) (p : Page) : Prop where
  uncounted : p.counted = false
  alone : p.inner = none
  unskipped : p.offset = none
  authored : p.table.authorTexts ⊆ texts
  conditions : ∀ f ∈ p.conditions, Fragment.Plain texts f

theorem Page.Restricted.spelled {p : Page} (h : p.Restricted texts) :
    Spelled texts (p.text .sqlite) := by
  have label : Spelled texts (Identifier.quote p.label) := .name p.label
  have limit : Spelled texts (Flavor.sqlite.limit p.limit) := by
    cases p.limit with
    | none => exact .word (by decide)
    | some n => exact (Spelled.word (by decide)).append (.number n)
  have table := spelled_tableText h.authored
  have order : Spelled texts (orderText p.order) := spelled_orderText p.order
  have conditions := spelled_conditions "\n  WHERE " (by decide) h.conditions
  unfold Page.text
  rcases p with ⟨t, l, counted, inner, cs, os, n, offset⟩
  obtain ⟨rfl, rfl, rfl, _, _⟩ := h
  -- from the closing label back to the first word
  refine Spelled.append (Spelled.append (Spelled.append ?_ .empty) (.word (by decide))) label
  refine Spelled.append (Spelled.append ?_ (.word (by decide))) limit
  refine Spelled.append (Spelled.append ?_ (.word (by decide))) order
  refine Spelled.append (Spelled.append ?_ .empty) conditions
  refine Spelled.append (Spelled.append (Spelled.append ?_ table) (.word (by decide))) label
  refine Spelled.append (Spelled.append ?_ .empty) (.word (by decide))
  exact ((Spelled.word (by decide)).append label).append (.word (by decide))

inductive TableItem.Restricted (texts : List String) : TableItem → Prop
  | base {name : TableName} (label : String) (authored : name.authorTexts ⊆ texts) :
    TableItem.Restricted texts (.base name label)
  | leftJoin {name : TableName} (label : String) (withAs : Bool) {on : Fragment}
    (authored : name.authorTexts ⊆ texts) (plain : on.Plain texts) :
    TableItem.Restricted texts (.leftJoin name label withAs on)
  | page {p : Page} (restricted : p.Restricted texts) : TableItem.Restricted texts (.page p)

theorem TableItem.Restricted.spelled {t : TableItem} (h : t.Restricted texts) :
    Spelled texts (t.text .sqlite) := by
  cases h with
  | base label authored =>
    exact (((Spelled.word (by decide)).append (spelled_tableText authored)).append
      (.word (by decide))).append (.name label)
  | leftJoin label withAs authored plain =>
    have introduced : Spelled texts (if withAs then " AS " else " ") := by
      cases withAs <;> exact .word (by decide)
    have table := (((Spelled.word (s := "LEFT JOIN ") (by decide)).append
      (spelled_tableText authored)).append introduced).append (.name label)
    exact (table.append (.word (by decide))).append plain.spelled
  | page restricted => exact (Spelled.word (by decide)).append restricted.spelled

structure Part.Restricted (texts : List String) (p : Part) : Prop where
  items : ∀ i ∈ p.items, i.source.Plain texts
  tables : ∀ t ∈ p.tables, t.Restricted texts
  conditions : ∀ f ∈ p.conditions, Fragment.Plain texts f

namespace Part.Restricted

theorem empty : Part.Restricted texts .empty := ⟨nofun, nofun, nofun⟩

theorem append {p q : Part} (h : p.Restricted texts) (h' : q.Restricted texts) :
    (p ++ q).Restricted texts where
  items := List.forall_mem_append.mpr ⟨h.items, h'.items⟩
  tables := List.forall_mem_append.mpr ⟨h.tables, h'.tables⟩
  conditions := List.forall_mem_append.mpr ⟨h.conditions, h'.conditions⟩

theorem of_tables {items : List TableItem} (h : ∀ t ∈ items, t.Restricted texts) :
    (tablesOnly items).Restricted texts := ⟨nofun, h, nofun⟩

theorem of_source {source : Fragment} (plain : source.Plain texts) (output : String) :
    Part.Restricted texts { Part.empty with items := [⟨source, output⟩] } :=
  ⟨List.forall_mem_singleton.mpr plain, nofun, nofun⟩

/-- The text of a restricted statement has no word of another dialect. -/
theorem spelled {p : Part} (h : p.Restricted texts) (params : Params) :
    Spelled texts (Statement.sql .sqlite ⟨p, params⟩) := by
  have items : Spelled texts
      (String.intercalate ",\n  " ((p.selected .sqlite).map (SelectItem.text .sqlite))) := by
    apply Spelled.intercalate (by decide)
    intro s member
    obtain ⟨i, selected, rfl⟩ := List.mem_map.mp member
    have source := (h.items i (mem_of_mem_eraseDupsBy selected)).spelled
    exact (source.append (.word (by decide))).append (.name i.output)
  have tables : Spelled texts
      (String.join (p.tables.map (fun t => "\n" ++ t.text .sqlite))) := by
    apply Spelled.join
    intro s member
    obtain ⟨t, among, rfl⟩ := List.mem_map.mp member
    exact (Spelled.word (by decide)).append (h.tables t among).spelled
  have orders : Spelled texts (if p.orders.isEmpty then ""
      else "\nORDER BY " ++ orderText p.orders) := by
    split
    · exact .empty
    · exact (Spelled.word (by decide)).append (spelled_orderText p.orders)
  have select := ((Spelled.word (s := "SELECT\n  ") (by decide)).append items).append tables
  exact (select.append (spelled_conditions "\nWHERE " (by decide) h.conditions)).append orders

end Part.Restricted

section Runs

variable {t : Table} {parent : Option Table} {path : List String} {scope : Option (List Value)}

/-- What follows a refusal does not matter. -/
theorem Yields.refused {α β : Type} {Q : β → Prop} {m : Binder α} {f : α → Binder β}
    (never : Yields (fun _ => False) m) : Yields Q (m >>= f) :=
  never.bind (fun _ impossible => impossible.elim)

/-- The restricted dialect has no page for each row of other tables. -/
theorem supportedPaging_related : Yields (fun _ => False) (supportedPaging .sqlite t true) where
  returned ran := by
    obtain ⟨_, supported⟩ := (supportedPaging_supported true).returned ran
    simp [checkSupport] at supported

theorem supportedPaging_unrelated :
    Yields (fun p => p.isOffset = false) (supportedPaging .sqlite t false) where
  returned {_ p _} ran := by
    obtain ⟨_, supported⟩ := (supportedPaging_supported false).returned ran
    cases counted : p.isOffset with
    | false => rfl
    | true => simp [checkSupport, counted] at supported

theorem rootPage_restricted (named : t.name.authorTexts ⊆ texts)
    (filtered : clausesAuthorTexts t.filter ⊆ texts) :
    Yields (fun items => ∀ i ∈ items, i.Restricted texts) (rootPage .sqlite t) := by
  apply supportedPaging_unrelated.bind
  intro p keyed
  apply (filter_plain _ filtered).bind
  intro own first
  apply (cursorCondition_plain p).bind
  intro past later
  cases p with
  | offset p => cases keyed
  | keyset p =>
    exact .pure (List.forall_mem_singleton.mpr
      (.page ⟨rfl, rfl, rfl, named, List.forall_mem_append.mpr ⟨first, later⟩⟩))

theorem joinPart_restricted {join : List Clause} (named : t.name.authorTexts ⊆ texts)
    (joined : clausesAuthorTexts join ⊆ texts) :
    Yields (Part.Restricted texts) (joinPart .sqlite parent t join) := by
  cases parent with
  | none => exact .throw _
  | some p =>
    apply Yields.ite
    · intro _
      exact .refused (.refused supportedPaging_related)
    · intro _
      apply (predicate_plain _ joined).bind
      intro on plain
      exact .pure (.of_tables (List.forall_mem_singleton.mpr (.leftJoin t.label false named plain)))

theorem parentKey_restricted (p : Table) (key : Plan.BatchKey) :
    (parentKey p path key).Restricted texts := .of_source (.cons (.column _ _) .nil) _

theorem junctionPart_restricted {j : Plan.Junction} (named : t.name.authorTexts ⊆ texts)
    (linked : j.authorTexts ⊆ texts) :
    Yields (Part.Restricted texts) (junctionPart .sqlite parent t j) := by
  simp only [Junction.authorTexts, List.append_subset] at linked
  obtain ⟨⟨⟨⟨table, above⟩, below⟩, _⟩, _⟩ := linked
  cases parent with
  | none => exact .throw _
  | some p =>
    simp only [junctionPart]
    cases fromParent : j.fromParent with
    | none => exact .throw _
    | some fromParent =>
      cases toChild : j.toChild with
      | none => exact .throw _
      | some toChild =>
        rw [fromParent, Option.getD_some] at above
        rw [toChild, Option.getD_some] at below
        apply Yields.ite
        · intro _
          exact .refused (.refused supportedPaging_related)
        · intro _
          apply (predicate_plain _ above).bind
          intro link first
          apply Yields.bind (P := fun items => items = [.leftJoin j.table j.label false link])
            (.pure rfl)
          rintro _ rfl
          apply (predicate_plain _ below).bind
          intro on second
          exact .pure (.of_tables (List.forall_mem_cons.mpr ⟨.leftJoin j.label false table first,
            List.forall_mem_singleton.mpr (.leftJoin t.label false named second)⟩))

theorem batchPart_restricted (b : Plan.Batch) (named : t.name.authorTexts ⊆ texts) :
    Yields (Part.Restricted texts) (batchPart .sqlite parent path scope t b) := by
  cases parent with
  | some p => exact .pure (parentKey_restricted p _)
  | none =>
    apply Yields.after
    intro values
    apply Yields.ite
    · intro _
      exact .refused (.refused supportedPaging_related)
    · intro _
      apply (membership_plain (.column _ _) values).bind
      intro within plain
      exact .pure ⟨nofun, List.forall_mem_singleton.mpr (.base t.label named),
        List.forall_mem_singleton.mpr plain⟩

theorem junctionBatchPart_restricted {j : Plan.Junction} {b : Plan.JunctionBatch}
    (many : j.batch = some b) (named : t.name.authorTexts ⊆ texts)
    (linked : j.authorTexts ⊆ texts) :
    Yields (Part.Restricted texts) (junctionBatchPart .sqlite parent path scope t j b) := by
  simp only [Junction.authorTexts, List.append_subset, many, Option.bind_some] at linked
  obtain ⟨⟨⟨⟨table, _⟩, _⟩, _⟩, below⟩ := linked
  cases parent with
  | some p => exact .pure (parentKey_restricted p _)
  | none =>
    simp only [junctionBatchPart]
    cases joined : b.join with
    | none => exact .throw _
    | some join =>
      rw [joined, Option.getD_some] at below
      apply Yields.after
      intro values
      apply Yields.ite
      · intro _
        exact .refused (.refused supportedPaging_related)
      · intro _
        apply (predicate_plain _ below).bind
        intro on plain
        apply (membership_plain (.column _ _) values).bind
        intro within confined
        exact .pure ⟨by simp, List.forall_mem_cons.mpr ⟨.base j.label table,
          List.forall_mem_singleton.mpr (.leftJoin t.label true named plain)⟩,
          List.forall_mem_singleton.mpr confined⟩

theorem rootPart_restricted (named : t.name.authorTexts ⊆ texts)
    (filtered : clausesAuthorTexts t.filter ⊆ texts) :
    Yields (Part.Restricted texts) (rootPart .sqlite parent t) := by
  cases parent with
  | some p => exact .throw _
  | none =>
    simp only [rootPart, Option.isSome_none, Bool.false_eq_true, if_false]
    apply Yields.ite
    · intro _
      apply (rootPage_restricted named filtered).bind
      intro items restricted
      exact .pure (.of_tables restricted)
    · intro _
      exact .pure (.of_tables (List.forall_mem_singleton.mpr (.base t.label named)))

theorem relationPart_restricted (authored : t.authorTexts ⊆ texts) :
    Yields (Part.Restricted texts) (relationPart .sqlite parent path scope t) := by
  simp only [Table.authorTexts, List.append_subset] at authored
  obtain ⟨⟨⟨named, joined⟩, linked⟩, filtered⟩ := authored
  unfold relationPart
  cases directly : t.join with
  | some join =>
    rw [directly, Option.getD_some] at joined
    exact joinPart_restricted named joined
  | none =>
    cases through : t.junction with
    | some j =>
      rw [through, Option.map_some, Option.getD_some] at linked
      cases many : j.batch with
      | some b =>
        simp only [many]
        exact junctionBatchPart_restricted many named linked
      | none =>
        simp only [many]
        exact junctionPart_restricted named linked
    | none =>
      cases many : t.batch with
      | some b => exact batchPart_restricted b named
      | none => exact rootPart_restricted named filtered

theorem tableFilter_restricted (authored : t.authorTexts ⊆ texts) :
    Yields (fun fs => ∀ f ∈ fs, Fragment.Plain texts f) (tableFilter parent t) := by
  simp only [Table.authorTexts, List.append_subset] at authored
  obtain ⟨⟨_, linked⟩, filtered⟩ := authored
  unfold tableFilter
  apply Yields.ite
  · intro _
    exact .pure (by simp)
  · intro _
    have rest (links : List Fragment) (first : ∀ f ∈ links, Fragment.Plain texts f) :
        Yields (fun fs => ∀ f ∈ fs, Fragment.Plain texts f)
          (do return links ++ (← filter (.ofTable t.label) t.filter)) := by
      apply (filter_plain _ filtered).bind
      intro own later
      exact .pure (List.forall_mem_append.mpr ⟨first, later⟩)
    cases through : t.junction with
    | none => exact Yields.bind (P := fun fs => fs = []) (.pure rfl) (by rintro _ rfl; exact rest [] nofun)
    | some j =>
      rw [through, Option.map_some, Option.getD_some] at linked
      simp only [Junction.authorTexts, List.append_subset] at linked
      exact (filter_plain _ linked.1.2).bind rest

theorem tablePart_restricted (authored : t.authorTexts ⊆ texts) :
    Yields (Part.Restricted texts) (tablePart .sqlite parent path scope t) := by
  apply (tableFilter_restricted authored).bind
  intro conditions plain
  apply Yields.after
  intro orders
  apply (relationPart_restricted authored).bind
  intro relation restricted
  exact .pure (Part.Restricted.append ⟨nofun, nofun, plain⟩ restricted)

theorem compositeSource_restricted (p : Table) (columns : List String) :
    (compositeSource .sqlite p columns).Plain texts := by
  have listed : Fragment.Plain texts
      (between (.sql " || ") (columns.map (fun c => [.column p.label c]))) := by
    apply Fragment.Plain.between (.word (by decide))
    intro f member
    obtain ⟨c, _, rfl⟩ := List.mem_map.mp member
    exact .cons (.column _ _) .nil
  exact .cons (.word (by decide)) (listed.append (.cons (.word (by decide)) .nil))

mutual

theorem nodePart_restricted : (n : Node) → n.authorTexts ⊆ texts → (parent : Option Table) →
    (path : List String) → (scope : Option (List Value)) →
    Yields (Part.Restricted texts) (nodePart .sqlite parent path scope n)
  | .table t children, authored, parent, path, scope => by
    rw [Node.authorTexts, List.append_subset] at authored
    rw [nodePart]
    apply (tablePart_restricted authored.1).bind
    intro here restricted
    apply Yields.ite
    · intro _
      apply (childrenPart_restricted children authored.2 t (path ++ [t.label])).bind
      intro rest below
      exact .pure (restricted.append below)
    · intro _
      exact .pure restricted
  | .column c, authored, parent, path, scope => by
    cases parent with
    | none => exact .throw _
    | some p =>
      refine .pure (.of_source ?_ _)
      rw [Node.authorTexts] at authored
      unfold columnSource
      cases source : c.source with
      | name column => exact .cons (.column _ _) .nil
      | expression sql =>
        rw [source] at authored
        exact .cons (.authored (authored (List.mem_singleton.mpr rfl)) (List.infix_refl _)) .nil
  | .composite c, _, parent, path, scope => by
    cases parent with
    | none => exact .throw _
    | some p => exact .pure (.of_source (compositeSource_restricted p c.columns) _)
  | .noop _ _, _, _, _, _ => .pure .empty

theorem childrenPart_restricted : (children : List Node) →
    Plan.nodesAuthorTexts children ⊆ texts → (parent : Table) → (path : List String) →
    Yields (Part.Restricted texts) (childrenPart .sqlite parent path children)
  | [], _, _, _ => .pure .empty
  | c :: r, authored, parent, path => by
    rw [Plan.nodesAuthorTexts, List.append_subset] at authored
    rw [childrenPart]
    apply (nodePart_restricted c authored.1 (some parent) path none).bind
    intro here first
    apply (childrenPart_restricted r authored.2 parent path).bind
    intro rest later
    exact .pure (first.append later)

end

end Runs

end Sql

end TreeQuery
