import TreeQuery.Proofs.Sql.PageOrder

/-!
How tables are reached, said once: all that a table can add to a statement, with what was written
for it on the way.
-/

namespace TreeQuery.Sql

open Plan (Paging Table)

/-- What a computation returns after some values were bound. -/
def Outcome {α : Type} (m : Binder α) (x : α) : Prop := ∃ ps ps', m.run ps = .ok (x, ps')

theorem Yields.outcome {α : Type} (m : Binder α) : Yields (Outcome m) m where
  returned ran := ⟨_, _, ran⟩

theorem Yields.of_outcome {α : Type} {P : α → Prop} {m : Binder α} {x : α} (h : Yields P m)
    (outcome : Outcome m x) : P x := by
  obtain ⟨_, _, ran⟩ := outcome
  exact h.returned ran

/-- A clause list and the labels its columns are resolved against, if it has any clauses. -/
def declared (a : Labels) (clauses : List Clause) : List (Labels × List Clause) :=
  if clauses.isEmpty then [] else [(a, clauses)]

/-- A condition is the predicate of a clause list. -/
def Writes (x : Labels × List Clause) (f : Fragment) : Prop := Outcome (predicate x.1 x.2) f

theorem filter_writes (a : Labels) (clauses : List Clause) :
    Yields (List.Forall₂ Writes (declared a clauses)) (filter a clauses) := by
  unfold filter declared
  apply Yields.ite
  · intro empty
    rw [if_pos empty]
    exact .pure .nil
  · intro more
    rw [if_neg more]
    apply (Yields.outcome _).bind
    intro f written
    exact .pure (.cons written .nil)

/-- The filters of a junction against the junction, and then those of the table against itself. -/
def tableFilters (t : Table) : List (Labels × List Clause) :=
  (match t.junction with
    | some j => declared (.ofTable j.label) j.filter
    | none => []) ++ declared (.ofTable t.label) t.filter

/-- The filters of a table that stand outside of pages. -/
def plainFilters (t : Table) : List (Labels × List Clause) :=
  if t.paginate then [] else tableFilters t

/-- Pages of a table with a junction are taken of the junction. -/
def pageSource (t : Table) : TableName × String :=
  match t.junction with
  | some j => (j.table, j.label)
  | none => (t.name, t.label)

section Source

variable {t : Table} {j : Plan.Junction}

theorem pageSource_unlinked (unlinked : t.junction = none) : pageSource t = (t.name, t.label) := by
  rw [pageSource, unlinked]

theorem pageSource_through (through : t.junction = some j) : pageSource t = (j.table, j.label) := by
  rw [pageSource, through]

theorem pageLabel_unlinked (unlinked : t.junction = none) : (pageSource t).2 = t.label := by
  rw [pageSource_unlinked unlinked]

theorem pageLabel_through (through : t.junction = some j) : (pageSource t).2 = j.label := by
  rw [pageSource_through through]

theorem batchKeys?_unlinked (unlinked : t.junction = none) : t.batchKeys? = t.batch := by
  rw [Table.batchKeys?, Table.junctionBatch?, unlinked]
  exact Option.or_none

theorem batchKeys?_unscoped (through : t.junction = some j) (unscoped : j.batch = none)
    (single : t.batch = none) : t.batchKeys? = none := by
  rw [Table.batchKeys?, Table.junctionBatch?, through, single, Option.bind_some, unscoped]
  rfl

theorem batchKeys?_through {b : Plan.JunctionBatch} (through : t.junction = some j)
    (many : j.batch = some b) (single : t.batch = none) : t.batchKeys? = some b.keys := by
  rw [Table.batchKeys?, Table.junctionBatch?, through, single, Option.bind_some, many]
  rfl

end Source

/-- The statement of a table goes on to those that are no batches. -/
theorem continues_single {t : Table} (single : t.batchKeys? = none) (parent : Option Table) :
    continues parent t = true := by
  rw [continues, t.isBatch_eq, single]
  exact Bool.or_true _

/-- A page of a table. What ties it to the rows above comes before the filters, and what is past the
cursor after them. -/
structure PageFor (t : Table) (links : List Fragment) (inner : Option InnerJoin) (page : Page) :
    Prop where
  paginate : t.paginate = true
  made : ∃ p filters past, t.paging = .ok p ∧ List.Forall₂ Writes (tableFilters t) filters ∧
    Outcome (cursorCondition p) past ∧
    page = pageOf (pageSource t).1 (pageSource t).2 inner (links ++ filters ++ past) p

/-- The table that a junction leads to is joined within a page that is filtered or ordered by it. -/
inductive Inner (t : Table) (j : Plan.Junction) (toChild : List Clause) : Option InnerJoin → Prop
  | unread (unfiltered : t.filter = []) (unordered : t.orderBy = none)
      (unkeyed : t.sortKey = none) : Inner t j toChild none
  | joined {on : Fragment} (written : Outcome (predicate (.ofJoin j.label t.label) toChild) on) :
      Inner t j toChild (some ⟨t.name, t.label, on⟩)

theorem innerJoin_inner (t : Table) (j : Plan.Junction) (toChild : List Clause) :
    Yields (Inner t j toChild) (innerJoin t j toChild) := by
  unfold innerJoin
  apply Yields.ite
  · intro unread
    simp only [Bool.and_eq_true, List.isEmpty_iff, Option.isNone_iff_eq_none] at unread
    exact .pure (.unread unread.1.1 unread.1.2 unread.2)
  · intro _
    apply (Yields.outcome _).bind
    intro on written
    exact .pure (.joined written)

/-- All that the relation of a table to the one above it adds to a statement. -/
inductive Reached (path : List String) (t : Table) :
    Option Table → Option (List Value) → Part → Prop
  | root {scope : Option (List Value)} (unlinked : t.junction = none) (single : t.batch = none)
      (unpaged : t.paginate = false) :
      Reached path t none scope (tablesOnly [.base t.name t.label])
  | rootPage {scope : Option (List Value)} {page : Page} (unlinked : t.junction = none)
      (single : t.batch = none) (taken : PageFor t [] none page) :
      Reached path t none scope (tablesOnly [.page page])
  | joined {scope : Option (List Value)} {parent : Table} {join : List Clause} {on : Fragment}
      (directly : t.join = some join) (unlinked : t.junction = none) (single : t.batch = none)
      (unpaged : t.paginate = false)
      (written : Outcome (predicate (.ofJoin parent.label t.label) join) on) :
      Reached path t (some parent) scope (tablesOnly [.leftJoin t.name t.label false on])
  | joinedPage {scope : Option (List Value)} {parent : Table} {join : List Clause}
      {links : List Fragment} {page : Page} {on : Fragment} (directly : t.join = some join)
      (unlinked : t.junction = none) (single : t.batch = none)
      (tied : List.Forall₂ Writes (declared (.ofJoin parent.label t.label) join) links)
      (taken : PageFor t links none page)
      (written : Outcome (predicate (.ofJoin parent.label t.label) join) on) :
      Reached path t (some parent) scope (tablesOnly [.lateral true page on])
  | linked {scope : Option (List Value)} {parent : Table} {j : Plan.Junction}
      {fromParent toChild : List Clause} {link on : Fragment} (through : t.junction = some j)
      (unscoped : j.batch = none) (single : t.batch = none) (above : j.fromParent = some fromParent)
      (below : j.toChild = some toChild) (unpaged : t.paginate = false)
      (linked : Outcome (predicate (.ofJoin parent.label j.label) fromParent) link)
      (written : Outcome (predicate (.ofJoin j.label t.label) toChild) on) :
      Reached path t (some parent) scope
        (tablesOnly [.leftJoin j.table j.label false link, .leftJoin t.name t.label false on])
  | linkedPage {scope : Option (List Value)} {parent : Table} {j : Plan.Junction}
      {fromParent toChild : List Clause} {links : List Fragment} {inner : Option InnerJoin}
      {page : Page} {link on : Fragment} (through : t.junction = some j) (unscoped : j.batch = none)
      (single : t.batch = none) (above : j.fromParent = some fromParent)
      (below : j.toChild = some toChild)
      (tied : List.Forall₂ Writes (declared (.ofJoin parent.label j.label) fromParent) links)
      (read : Inner t j toChild inner) (taken : PageFor t links inner page)
      (linked : Outcome (predicate (.ofJoin parent.label j.label) fromParent) link)
      (written : Outcome (predicate (.ofJoin j.label t.label) toChild) on) :
      Reached path t (some parent) scope
        (tablesOnly [.lateral true page link, .leftJoin t.name t.label false on])
  | key {scope : Option (List Value)} {parent : Table} {keys : Plan.Batch}
      (boundary : t.batchKeys? = some keys) :
      Reached path t (some parent) scope (parentKey parent path keys.parentKey)
  | batch {values : List Value} {b : Plan.Batch} {within : Fragment} (unlinked : t.junction = none)
      (many : t.batch = some b) (unpaged : t.paginate = false)
      (confined : Outcome (membership (.column t.label b.thisKey.column) values) within) :
      Reached path t none (some values) ⟨[], [.base t.name t.label], [within], []⟩
  | batchPage {values : List Value} {b : Plan.Batch} {keys : List Token} {page : Page}
      (unlinked : t.junction = none) (many : t.batch = some b)
      (confined : Outcome (bindValues values) keys)
      (taken : PageFor t [correlation t.label b] none page) :
      Reached path t none (some values)
        (tablesOnly [.scope b.parentKey.column keys, .lateral false page (correlation t.label b)])
  | junctionBatch {values : List Value} {j : Plan.Junction} {b : Plan.JunctionBatch}
      {join : List Clause} {on within : Fragment} (through : t.junction = some j)
      (many : j.batch = some b) (single : t.batch = none) (below : b.join = some join)
      (unpaged : t.paginate = false)
      (written : Outcome (predicate (.ofJoin j.label t.label) join) on)
      (confined : Outcome (membership (.column j.label b.keys.thisKey.column) values) within) :
      Reached path t none (some values)
        ⟨[], [.base j.table j.label, .leftJoin t.name t.label true on], [within], []⟩
  | junctionBatchPage {values : List Value} {j : Plan.Junction} {b : Plan.JunctionBatch}
      {join : List Clause} {keys : List Token} {inner : Option InnerJoin} {page : Page}
      {on : Fragment} (through : t.junction = some j) (many : j.batch = some b)
      (single : t.batch = none) (below : b.join = some join)
      (confined : Outcome (bindValues values) keys) (read : Inner t j join inner)
      (taken : PageFor t [correlation j.label b.keys] inner page)
      (written : Outcome (predicate (.ofJoin j.label t.label) join) on) :
      Reached path t none (some values)
        (tablesOnly [.scope b.keys.parentKey.column keys,
          .lateral true page (correlation j.label b.keys), .leftJoin t.name t.label true on])

section Pages

variable {t : Table} (fl : Flavor)

theorem scopeTable_scope (column : String) (values : List Value) :
    Yields (fun item => ∃ keys, item = .scope column keys ∧ Outcome (bindValues values) keys)
      (scopeTable column values) := by
  apply (Yields.outcome _).bind
  intro keys bound
  exact .pure ⟨keys, rfl, bound⟩

/-- A page of a table without a junction. -/
theorem PageFor.own {p : Paging} {links filters past : List Fragment}
    (paginate : t.paginate = true) (unlinked : t.junction = none) (asked : t.paging = .ok p)
    (own : List.Forall₂ Writes (declared (.ofTable t.label) t.filter) filters)
    (beyond : Outcome (cursorCondition p) past) :
    PageFor t links none (pageOf t.name t.label none (links ++ filters ++ past) p) where
  paginate
  made := by
    refine ⟨p, filters, past, asked, ?_, beyond, ?_⟩
    · rwa [tableFilters, unlinked]
    · rw [pageSource_unlinked unlinked]

/-- A page of a junction. -/
theorem PageFor.through {j : Plan.Junction} {p : Paging} {inner : Option InnerJoin}
    {links linked filters past : List Fragment} (paginate : t.paginate = true)
    (through : t.junction = some j) (asked : t.paging = .ok p)
    (first : List.Forall₂ Writes (declared (.ofTable j.label) j.filter) linked)
    (own : List.Forall₂ Writes (declared (.ofTable t.label) t.filter) filters)
    (beyond : Outcome (cursorCondition p) past) :
    PageFor t links inner
      (pageOf j.table j.label inner (links ++ linked ++ filters ++ past) p) where
  paginate
  made := by
    refine ⟨p, linked ++ filters, past, asked, ?_, beyond, ?_⟩
    · rw [tableFilters, through]
      exact List.rel_append first own
    · rw [pageSource_through through, ← List.append_assoc links]

theorem rootPage_reached (paginate : t.paginate = true) (unlinked : t.junction = none) :
    Yields (fun items => ∃ page, items = [.page page] ∧ PageFor t [] none page)
      (rootPage fl t) := by
  apply (supportedPaging_yields fl false).bind
  intro p asked
  apply (filter_writes _ _).bind
  intro filters own
  apply (Yields.outcome _).bind
  intro past beyond
  exact .pure ⟨_, rfl, .own paginate unlinked asked own beyond⟩

theorem joinedPage_reached (paginate : t.paginate = true) (unlinked : t.junction = none)
    (parent : Table) (join : List Clause) :
    Yields (fun items => ∃ links page on, items = [.lateral true page on] ∧
        List.Forall₂ Writes (declared (.ofJoin parent.label t.label) join) links ∧
        PageFor t links none page ∧ Outcome (predicate (.ofJoin parent.label t.label) join) on)
      (joinedPage fl parent t join) := by
  apply (supportedPaging_yields fl true).bind
  intro p asked
  apply (filter_writes _ _).bind
  intro links tied
  apply (filter_writes _ _).bind
  intro filters own
  apply (Yields.outcome _).bind
  intro past beyond
  apply (Yields.outcome _).bind
  intro on written
  exact .pure ⟨links, _, on, rfl, tied, .own paginate unlinked asked own beyond, written⟩

theorem batchPage_reached (paginate : t.paginate = true) (unlinked : t.junction = none)
    (b : Plan.Batch) (values : List Value) :
    Yields (fun items => ∃ keys page, items = [.scope b.parentKey.column keys,
          .lateral false page (correlation t.label b)] ∧ Outcome (bindValues values) keys ∧
        PageFor t [correlation t.label b] none page) (batchPage fl t b values) := by
  apply (supportedPaging_yields fl true).bind
  intro p asked
  apply (scopeTable_scope _ _).bind
  rintro _ ⟨keys, rfl, bound⟩
  apply (filter_writes _ _).bind
  intro filters own
  apply (Yields.outcome _).bind
  intro past beyond
  exact .pure ⟨keys, _, rfl, bound, .own paginate unlinked asked own beyond⟩

theorem junctionPage_reached {j : Plan.Junction} (paginate : t.paginate = true)
    (through : t.junction = some j) (parent : Table) (fromParent toChild : List Clause) :
    Yields (fun items => ∃ links inner page link, items = [.lateral true page link] ∧
        List.Forall₂ Writes (declared (.ofJoin parent.label j.label) fromParent) links ∧
        Inner t j toChild inner ∧ PageFor t links inner page ∧
        Outcome (predicate (.ofJoin parent.label j.label) fromParent) link)
      (junctionPage fl parent t j fromParent toChild) := by
  apply (supportedPaging_yields fl true).bind
  intro p asked
  apply (filter_writes _ _).bind
  intro links tied
  apply (filter_writes _ _).bind
  intro linked first
  apply (filter_writes _ _).bind
  intro filters own
  apply (Yields.outcome _).bind
  intro past beyond
  apply (innerJoin_inner t j toChild).bind
  intro inner read
  apply (Yields.outcome _).bind
  intro link written
  exact .pure ⟨links, inner, _, link, rfl, tied, read,
    .through paginate through asked first own beyond, written⟩

theorem junctionBatchPage_reached {j : Plan.Junction} (paginate : t.paginate = true)
    (through : t.junction = some j) (b : Plan.Batch) (values : List Value) (join : List Clause) :
    Yields (fun items => ∃ keys inner page on, items = [.scope b.parentKey.column keys,
          .lateral true page (correlation j.label b), .leftJoin t.name t.label true on] ∧
        Outcome (bindValues values) keys ∧ Inner t j join inner ∧
        PageFor t [correlation j.label b] inner page ∧
        Outcome (predicate (.ofJoin j.label t.label) join) on)
      (junctionBatchPage fl t j b values join) := by
  apply (supportedPaging_yields fl true).bind
  intro p asked
  apply (scopeTable_scope _ _).bind
  rintro _ ⟨keys, rfl, bound⟩
  apply (filter_writes _ _).bind
  intro linked first
  apply (filter_writes _ _).bind
  intro filters own
  apply (Yields.outcome _).bind
  intro past beyond
  apply (innerJoin_inner t j join).bind
  intro inner read
  apply (Yields.outcome _).bind
  intro on written
  exact .pure ⟨keys, inner, _, on, rfl, bound, read,
    .through paginate through asked first own beyond, written⟩

end Pages

section Parts

variable {t : Table} {parent : Option Table} {scope : Option (List Value)}
variable (fl : Flavor) (path : List String)

theorem requireScope_ok {values : List Value} (required : requireScope t scope = .ok values) :
    scope = some values := by
  unfold requireScope at required
  split at required
  · cases required
    rfl
  · cases required

theorem joinPart_reached {join : List Clause} (directly : t.join = some join)
    (unlinked : t.junction = none) (single : t.batch = none) :
    Yields (Reached path t parent scope) (joinPart fl parent t join) := by
  cases parent with
  | none => exact .throw _
  | some p =>
    simp only [joinPart]
    apply Yields.ite
    · intro paginate
      apply (joinedPage_reached fl paginate unlinked p join).bind
      rintro _ ⟨links, page, on, rfl, tied, taken, written⟩
      exact .pure (.joinedPage directly unlinked single tied taken written)
    · intro unpaged
      apply (Yields.outcome _).bind
      intro on written
      exact .pure (.joined directly unlinked single (Bool.eq_false_iff.mpr unpaged) written)

theorem junctionPart_reached {j : Plan.Junction} (through : t.junction = some j)
    (unscoped : j.batch = none) (single : t.batch = none) :
    Yields (Reached path t parent scope) (junctionPart fl parent t j) := by
  cases parent with
  | none => exact .throw _
  | some p =>
    simp only [junctionPart]
    cases above : j.fromParent with
    | none => exact .throw _
    | some fromParent =>
      cases below : j.toChild with
      | none => exact .throw _
      | some toChild =>
        apply Yields.ite
        · intro paginate
          apply (junctionPage_reached fl paginate through p fromParent toChild).bind
          rintro _ ⟨links, inner, page, link, rfl, tied, read, taken, linked⟩
          apply (Yields.outcome _).bind
          intro on written
          exact .pure
            (.linkedPage through unscoped single above below tied read taken linked written)
        · intro unpaged
          apply (Yields.outcome _).bind
          intro link linked
          apply Yields.bind (P := fun items => items = [.leftJoin j.table j.label false link])
            (.pure rfl)
          rintro _ rfl
          apply (Yields.outcome _).bind
          intro on written
          exact .pure (.linked through unscoped single above below
            (Bool.eq_false_iff.mpr unpaged) linked written)

theorem batchPart_reached {b : Plan.Batch} (unlinked : t.junction = none)
    (many : t.batch = some b) :
    Yields (Reached path t parent scope) (batchPart fl parent path scope t b) := by
  cases parent with
  | some p => exact .pure (.key ((batchKeys?_unlinked unlinked).trans many))
  | none =>
    have required : Yields (fun values => scope = some values)
        (liftM (requireScope t scope) : Binder (List Value)) := .lift (fun _ => requireScope_ok)
    apply required.bind
    rintro values rfl
    apply Yields.ite
    · intro paginate
      apply (batchPage_reached fl paginate unlinked b values).bind
      rintro _ ⟨keys, page, rfl, confined, taken⟩
      exact .pure (.batchPage unlinked many confined taken)
    · intro unpaged
      apply (Yields.outcome _).bind
      intro within confined
      exact .pure (.batch unlinked many (Bool.eq_false_iff.mpr unpaged) confined)

theorem junctionBatchPart_reached {j : Plan.Junction} {b : Plan.JunctionBatch}
    (through : t.junction = some j) (many : j.batch = some b) (single : t.batch = none) :
    Yields (Reached path t parent scope) (junctionBatchPart fl parent path scope t j b) := by
  cases parent with
  | some p => exact .pure (.key (batchKeys?_through through many single))
  | none =>
    simp only [junctionBatchPart]
    cases below : b.join with
    | none => exact .throw _
    | some join =>
      have required : Yields (fun values => scope = some values)
          (liftM (requireScope t scope) : Binder (List Value)) := .lift (fun _ => requireScope_ok)
      apply required.bind
      rintro values rfl
      apply Yields.ite
      · intro paginate
        apply (junctionBatchPage_reached fl paginate through b.keys values join).bind
        rintro _ ⟨keys, inner, page, on, rfl, confined, read, taken, written⟩
        exact .pure (.junctionBatchPage through many single below confined read taken written)
      · intro unpaged
        apply (Yields.outcome _).bind
        intro on written
        apply (Yields.outcome _).bind
        intro within confined
        exact .pure (.junctionBatch through many single below (Bool.eq_false_iff.mpr unpaged)
          written confined)

theorem rootPart_reached (unlinked : t.junction = none) (single : t.batch = none) :
    Yields (Reached path t parent scope) (rootPart fl parent t) := by
  cases parent with
  | some p => exact .throw _
  | none =>
    simp only [rootPart, Option.isSome_none, Bool.false_eq_true, if_false]
    apply Yields.ite
    · intro paginate
      apply (rootPage_reached fl paginate unlinked).bind
      rintro _ ⟨page, rfl, taken⟩
      exact .pure (.rootPage unlinked single taken)
    · intro unpaged
      exact .pure (.root unlinked single (Bool.eq_false_iff.mpr unpaged))

theorem relationPart_reached (related : t.relationCount ≤ 1) :
    Yields (Reached path t parent scope) (relationPart fl parent path scope t) := by
  rw [Table.relationCount_le_one] at related
  unfold relationPart
  cases directly : t.join with
  | some join =>
    obtain ⟨single, unlinked⟩ := related.1 (by rw [directly]; rfl)
    exact joinPart_reached fl path directly unlinked single
  | none =>
    cases through : t.junction with
    | some j =>
      have single := related.2 (by rw [through]; rfl)
      cases many : j.batch with
      | some b =>
        simp only [many]
        exact junctionBatchPart_reached fl path through many single
      | none =>
        simp only [many]
        exact junctionPart_reached fl path through many single
    | none =>
      cases many : t.batch with
      | some b => exact batchPart_reached fl path through many
      | none => exact rootPart_reached fl path through many

/-- What a table adds to the conditions of its statement, which is nothing if the statement does
not go on below it. -/
theorem tableFilter_writes :
    Yields (List.Forall₂ Writes (if continues parent t then plainFilters t else []))
      (tableFilter parent t) := by
  have own : Yields (List.Forall₂ Writes (declared (.ofTable t.label) t.filter))
      (filter (.ofTable t.label) t.filter) := filter_writes _ _
  have conditions : (if continues parent t then plainFilters t else []) =
      if t.paginate || (t.isBatch && parent.isSome) then [] else tableFilters t := by
    rw [continues, plainFilters]
    cases parent <;> cases t.isBatch <;> simp
  rw [conditions]
  unfold tableFilter tableFilters
  split
  · exact .pure .nil
  · cases t.junction with
    | none =>
      apply own.bind
      intro filters written
      exact .pure written
    | some j =>
      apply (filter_writes _ _).bind
      intro linked first
      apply own.bind
      intro filters written
      exact .pure (List.rel_append first written)

/-- A table's own part of a statement. -/
theorem tablePart_reached (related : t.relationCount ≤ 1) :
    Yields (fun part => ∃ conditions relation, part = ⟨[], [], conditions,
          if continues parent t then contribution t else []⟩ ++ relation ∧
        List.Forall₂ Writes (if continues parent t then plainFilters t else []) conditions ∧
        Reached path t parent scope relation)
      (tablePart fl parent path scope t) := by
  apply tableFilter_writes.bind
  intro conditions written
  apply orderPart_contribution.bind
  rintro _ rfl
  apply (relationPart_reached fl path related).bind
  intro relation reached
  exact .pure ⟨conditions, relation, rfl, written, reached⟩

end Parts

end TreeQuery.Sql
