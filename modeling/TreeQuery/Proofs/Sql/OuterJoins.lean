import TreeQuery.Proofs.Batch.Correlation
import TreeQuery.Proofs.Sql.Filters

/-!
What a statement returns from a database. Every table below its root is joined so that no row above
is lost, but their filters stand among the conditions of the whole statement, and there a row is
lost that has no combination with rows which satisfy all of them.
-/

namespace TreeQuery.Sql

open Plan (Node Table)

/-- A row under each label, none where an outer join has found none. -/
abbrev Combination (ρ : Type) := Fields (Option ρ)

/-- The tables that statements read, and how the conditions on their rows turn out. -/
structure Database (ρ : Type) where
  rows : TableName → List ρ
  /-- The rows of a page, for rows of the tables before it. -/
  pageRows : Page → Combination ρ → List ρ
  keyRows : String → List Token → List ρ
  /-- A condition that is neither true nor false does not hold. -/
  holds : Fragment → Combination ρ → Bool
  cell : String → Combination ρ → Value

namespace TableItem

/-- All that stands before such an item in a statement is kept. -/
def isOuter : TableItem → Bool
  | .leftJoin .. => true
  | .lateral outer _ _ => outer
  | _ => false

end TableItem

namespace Database

variable {ρ : Type} (db : Database ρ)

/-- A combination with each row that matches, or else without any. -/
def outer (on : Fragment) (label : String) (rows : List ρ) (c : Combination ρ) :
    List (Combination ρ) :=
  match (rows.map (fun r => c ++ [(label, some r)])).filter (db.holds on) with
  | [] => [c ++ [(label, none)]]
  | found => found

def step : TableItem → Combination ρ → List (Combination ρ)
  | .base t label, c => (db.rows t).map (fun r => c ++ [(label, some r)])
  | .leftJoin t label _ on, c => db.outer on label (db.rows t) c
  | .scope column keys, c => (db.keyRows column keys).map (fun r => c ++ [(scopeLabel, some r)])
  | .page p, c => (db.pageRows p c).map (fun r => c ++ [(p.label, some r)])
  | .lateral outer p on, c =>
    if outer then db.outer on p.label (db.pageRows p c) c
    else ((db.pageRows p c).map (fun r => c ++ [(p.label, some r)])).filter (db.holds on)

/-- The combinations that some items make of one. -/
def combinations : List TableItem → Combination ρ → List (Combination ρ)
  | [], c => [c]
  | item :: r, c => (db.step item c).flatMap (combinations r)

/-- The combinations that satisfy all conditions of a statement. -/
def selects (st : Statement) : List (Combination ρ) :=
  (db.combinations st.part.tables []).filter (fun c => st.part.conditions.all (db.holds · c))

def result (fl : Flavor) (st : Statement) : List Row :=
  (db.selects st).map (fun c => st.row fl (db.cell · c))

variable {db} {c c' : Combination ρ}

theorem mem_selects {st : Statement} : c ∈ db.selects st ↔
    c ∈ db.combinations st.part.tables [] ∧ ∀ f ∈ st.part.conditions, db.holds f c := by
  rw [selects, List.mem_filter, List.all_eq_true]

theorem prefix_of_mem_map {label : String} {rows : List ρ}
    (member : c' ∈ rows.map (fun r => c ++ [(label, some r)])) : c <+: c' := by
  obtain ⟨r, _, rfl⟩ := List.mem_map.mp member
  exact List.prefix_append _ _

theorem prefix_outer {on : Fragment} {label : String} {rows : List ρ}
    (member : c' ∈ db.outer on label rows c) : c <+: c' := by
  rw [outer] at member
  split at member
  · obtain rfl := List.mem_singleton.mp member
    exact List.prefix_append _ _
  · exact prefix_of_mem_map (List.mem_of_mem_filter member)

theorem prefix_step {item : TableItem} (member : c' ∈ db.step item c) : c <+: c' := by
  cases item with
  | base _ _ | scope _ _ | page _ => exact prefix_of_mem_map member
  | leftJoin _ _ _ _ => exact prefix_outer member
  | lateral outer p on =>
    rw [step] at member
    split at member
    · exact prefix_outer member
    · exact prefix_of_mem_map (List.mem_of_mem_filter member)

theorem outer_ne_nil (on : Fragment) (label : String) (rows : List ρ) :
    db.outer on label rows c ≠ [] := by
  rw [outer]
  split
  · exact List.cons_ne_nil _ _
  · rename_i found
    exact found

theorem combinations_append (items more : List TableItem) (c : Combination ρ) :
    db.combinations (items ++ more) c =
      (db.combinations items c).flatMap (db.combinations more) := by
  induction items generalizing c with
  | nil => exact (List.flatMap_singleton _ _).symm
  | cons item items inductionHypothesis =>
    rw [List.cons_append, combinations, combinations, List.flatMap_assoc]
    exact congrArg (List.flatMap · _) (funext inductionHypothesis)

/-- Outer joins go on from every combination. -/
theorem exists_combination {items : List TableItem} (isOuter : ∀ item ∈ items, item.isOuter)
    (c : Combination ρ) : ∃ c' ∈ db.combinations items c, c <+: c' := by
  induction items generalizing c with
  | nil => exact ⟨c, List.mem_singleton_self c, List.prefix_rfl⟩
  | cons item items inductionHypothesis =>
    obtain ⟨own, others⟩ := List.forall_mem_cons.mp isOuter
    obtain ⟨c₁, first⟩ : ∃ c₁, c₁ ∈ db.step item c := by
      refine List.exists_mem_of_ne_nil _ ?_
      cases item with
      | leftJoin t label withAs on => exact outer_ne_nil _ _ _
      | lateral kept p on =>
        have kept : kept = true := own
        rw [step, if_pos kept]
        exact outer_ne_nil _ _ _
      | base _ _ | scope _ _ | page _ => cases own
    obtain ⟨c', later, goesOn⟩ := inductionHypothesis others c₁
    exact ⟨c', List.mem_flatMap.mpr ⟨c₁, first, later⟩, (prefix_step first).trans goesOn⟩

end Database

section Statements

variable {t : Table} {path : List String} {scope : Option (List Value)} {part : Part}

/-- Below the root, every table is joined so that nothing above it is lost. -/
theorem Reached.outer {parent : Table} (reached : Reached path t (some parent) scope part) :
    ∀ item ∈ part.tables, item.isOuter := by
  cases reached with
  | joined _ _ _ _ _ | joinedPage _ _ _ _ _ _ => exact List.forall_mem_singleton.mpr rfl
  | linked _ _ _ _ _ _ _ _ | linkedPage _ _ _ _ _ _ _ _ _ _ =>
    exact List.forall_mem_cons.mpr ⟨rfl, List.forall_mem_singleton.mpr rfl⟩
  | key _ => exact fun item member => (List.not_mem_nil member).elim

variable (fl : Flavor)

mutual

theorem nodePart_outer : (n : Node) → n.Everywhere Table.Coherent → (parent : Table) →
    (path : List String) → (scope : Option (List Value)) →
    Yields (fun part => ∀ item ∈ part.tables, item.isOuter) (nodePart fl (some parent) path scope n)
  | .table t children, coherent, parent, path, scope => by
    rw [nodePart]
    apply (tablePart_reached fl path coherent.1.related).bind
    rintro _ ⟨conditions, relation, rfl, _, reached⟩
    have own : ∀ item ∈ relation.tables, item.isOuter := reached.outer
    split
    · apply (childrenPart_outer children coherent.2 t (path ++ [t.label])).bind
      intro rest below
      exact .pure (List.forall_mem_append.mpr ⟨own, below⟩)
    · exact .pure own
  | .column c, _, parent, path, scope | .composite c, _, parent, path, scope
  | .noop _ _, _, parent, path, scope => .pure (fun item member => (List.not_mem_nil member).elim)

theorem childrenPart_outer : (children : List Node) →
    Node.EverywhereIn Table.Coherent children → (parent : Table) → (path : List String) →
    Yields (fun part => ∀ item ∈ part.tables, item.isOuter) (childrenPart fl parent path children)
  | [], _, parent, path => .pure (fun item member => (List.not_mem_nil member).elim)
  | c :: r, coherent, parent, path => by
    rw [childrenPart]
    apply (nodePart_outer c coherent.1 parent path none).bind
    intro here first
    apply (childrenPart_outer r coherent.2 parent path).bind
    intro rest later
    exact .pure (List.forall_mem_append.mpr ⟨first, later⟩)

end

/-- A statement in two: the part that its own table takes, and all that the tables below add, which
are joined so that nothing before them is lost. -/
structure Split (t : Table) (children : List Node) (scope : Option (List Value)) (st : Statement)
    (source : Part) (own below : List Fragment) (joined : List TableItem) : Prop where
  reached : Reached [] t none scope source
  tables : st.part.tables = source.tables ++ joined
  isOuter : ∀ item ∈ joined, item.isOuter
  conditions : st.part.conditions = own ++ source.conditions ++ below
  filters : List.Forall₂ Writes (plainFilters t) own
  joinedFilters : List.Forall₂ Writes ((Node.joinedTables children).flatMap plainFilters) below

theorem statement_split {children : List Node} {st : Statement}
    (coherent : (Node.table t children).Everywhere Table.Coherent)
    (stated : statement fl (.table t children) scope = .ok st) :
    ∃ source own below joined, Split t children scope st source own below joined := by
  obtain ⟨here, rest, _, ranHere, ranRest, part⟩ := statement_table stated
  obtain ⟨own, source, rfl, written, reached⟩ :=
    (tablePart_reached fl [] coherent.1.related).returned ranHere
  have filters := (childrenPart_filters fl children coherent.2 t _).returned ranRest
  have isOuter := (childrenPart_outer fl children coherent.2 t _).returned ranRest
  refine ⟨source, own, rest.conditions, rest.tables, reached, ?_, isOuter, ?_, written,
    filters.conditions⟩ <;>
  · rw [← part]
    rfl

namespace Split

variable {children : List Node} {st : Statement} {source : Part} {own below : List Fragment}
variable {joined : List TableItem} {ρ : Type} {c : Combination ρ}
variable (split : Split t children scope st source own below joined)
include split

/-- The conditions are on the own table alone only if no table below has a filter. -/
theorem below_eq_nil_iff : below = [] ↔ ∀ u ∈ Node.joinedTables children, plainFilters u = [] := by
  rw [← List.flatMap_eq_nil_iff, ← List.length_eq_zero_iff, ← List.length_eq_zero_iff,
    split.joinedFilters.length_eq]

/-- Every combination of the rows that a statement starts from goes on below. -/
theorem exists_combination (db : Database ρ) (starts : c ∈ db.combinations source.tables []) :
    ∃ c' ∈ db.combinations st.part.tables [], c <+: c' := by
  obtain ⟨c', later, goesOn⟩ := Database.exists_combination split.isOuter c
  rw [split.tables, Database.combinations_append]
  exact ⟨c', List.mem_flatMap.mpr ⟨c, starts, later⟩, goesOn⟩

/-- What satisfies the own conditions of a table is returned if it goes on to rows that satisfy the
filters of all tables below at once, and not otherwise. -/
theorem returns_iff (db : Database ρ)
    (satisfied : ∀ c' ∈ db.combinations st.part.tables [], c <+: c' →
      ∀ f ∈ own ++ source.conditions, db.holds f c') :
    (∃ c' ∈ db.selects st, c <+: c') ↔
      ∃ c' ∈ db.combinations st.part.tables [], c <+: c' ∧ ∀ f ∈ below, db.holds f c' := by
  refine exists_congr (fun c' => ?_)
  rw [Database.mem_selects, split.conditions, List.forall_mem_append]
  constructor
  · rintro ⟨⟨member, _, filtered⟩, goesOn⟩
    exact ⟨member, goesOn, filtered⟩
  · rintro ⟨member, goesOn, filtered⟩
    exact ⟨⟨member, satisfied c' member goesOn, filtered⟩, goesOn⟩

end Split

end Statements

end TreeQuery.Sql
