import TreeQuery.Proofs.Plan.Walk

/-!
What the columns below a planned table read: a column of the table or of its junction, the count of
a page, or SQL that the schema computes from the label of the table.
-/

namespace TreeQuery.Plan

variable {Ctx : Type} {s : Schema Ctx} {cx : Ctx}

/-- SQL that the schema computes from the quoted label of a table. -/
inductive Authored (s : Schema Ctx) (cx : Ctx) (label : String) : String → Prop
  | column {type : ObjectType Ctx} {config : TableConfig Ctx}
      {f : String → String → Delegate Ctx String} (column : String) (args : Arguments)
      (known : type ∈ s.types) (configured : type.table = some config)
      (computes : config.columnExpression = some f) :
      Authored s cx label (f (Identifier.quote label) column args cx)
  | field {type : ObjectType Ctx} {name : String} {field : Field Ctx}
      {f : String → Delegate Ctx String} (args : Arguments) (known : type ∈ s.types)
      (found : type.field? name = some field) (computes : field.expression = some f) :
      Authored s cx label (f (Identifier.quote label) args cx)

/-- The label of the table that pages are taken of. -/
def Table.pageLabel (t : Table) : String := (t.junction.map Junction.label).getD t.label

/-- What a column below a table reads. -/
inductive ReadsFrom (s : Schema Ctx) (cx : Ctx) (t : Table) (c : Column) : Prop
  | own {column : String} (source : c.source = .name column) (unlinked : c.fromTable = none)
  | linked {column : String} {j : Junction} (source : c.source = .name column)
      (through : t.junction = some j) (linked : c.fromTable = some j.label)
  | total (counted : t.isOffsetPaginated = true) (source : c.source = .expression
      (Identifier.quote t.pageLabel ++ "." ++ Identifier.quote totalColumn))
  | authored {sql : String} (source : c.source = .expression sql)
      (authored : Authored s cx t.label sql)

/-- Nodes of which every column is read in such a way. -/
def Sourced (s : Schema Ctx) (cx : Ctx) (t : Table) (nodes : List Node) : Prop :=
  ∀ c, .column c ∈ nodes → ReadsFrom s cx t c

namespace Sourced

variable {t : Table} {nodes a b : List Node}

theorem nil : Sourced s cx t [] := nofun

theorem append (first : Sourced s cx t a) (later : Sourced s cx t b) : Sourced s cx t (a ++ b) := by
  intro c member
  rcases List.mem_append.mp member with here | there
  · exact first c here
  · exact later c there

theorem column {c : Column} (own : ReadsFrom s cx t c) : Sourced s cx t [.column c] := by
  intro d member
  cases List.mem_singleton.mp member
  exact own

theorem composite (c : Composite) : Sourced s cx t [.composite c] := nofun

theorem noop (name : String) (l : Location) : Sourced s cx t [.noop name l] := nofun

/-- What is read below a table does not count here. -/
theorem behind {u : Table} {children : List Node} (later : Sourced s cx t nodes) :
    Sourced s cx t (.table u children :: nodes) := by
  intro c member
  cases member with
  | tail _ there => exact later c there

end Sourced

section Nodes

variable {type : ObjectType Ctx} {config : TableConfig Ctx} {t : Table}
variable {ns ns' : Namespace} {nodes : List Node}

theorem plainColumn_readsFrom {column fieldName : String} {l : Location} {c : Column}
    (known : type ∈ s.types) (configured : type.table = some config)
    (ran : (plainColumn cx config t column fieldName l).run ns = .ok (c, ns')) :
    ReadsFrom s cx t c := by
  obtain ⟨label, _, _, ran⟩ := run_bind_ok.mp ran
  obtain ⟨rfl, _⟩ := run_pure_ok.mp ran
  cases computes : config.columnExpression with
  | none => exact .own rfl rfl
  | some f => exact .authored rfl (.column column t.arguments known configured computes)

theorem plainColumns_sourced {l : Location} {columns : List String} (known : type ∈ s.types)
    (configured : type.table = some config)
    (ran : (plainColumns cx config t l columns).run ns = .ok (nodes, ns')) :
    Sourced s cx t nodes := by
  induction columns generalizing ns nodes with
  | nil =>
    obtain ⟨rfl, _⟩ := run_pure_ok.mp ran
    exact .nil
  | cons c columns inductionHypothesis =>
    obtain ⟨column, _, here, ran⟩ := run_bind_ok.mp ran
    obtain ⟨rest, _, later, ran⟩ := run_bind_ok.mp ran
    obtain ⟨rfl, rfl⟩ := run_pure_ok.mp ran
    have first : Sourced s cx t [.column column] :=
      .column (plainColumn_readsFrom known configured here)
    exact first.append (inductionHypothesis later)

theorem identityNode_sourced {typeName : String} {n : Node} (known : type ∈ s.types)
    (configured : type.table = some config)
    (ran : (identityNode cx typeName config t).run ns = .ok (n, ns')) : Sourced s cx t [n] := by
  unfold identityNode at ran
  split at ran
  · exact (run_throw_ok.mp ran).elim
  · obtain ⟨column, _, here, ran⟩ := run_bind_ok.mp ran
    obtain ⟨rfl, _⟩ := run_pure_ok.mp ran
    apply Sourced.column
    cases plainColumn_readsFrom known configured here with
    | own source unlinked => exact .own source unlinked
    | linked source through linked => exact .linked source through linked
    | total counted source => exact .total counted source
    | authored source authored => exact .authored source authored
  · obtain ⟨label, _, _, ran⟩ := run_bind_ok.mp ran
    obtain ⟨rfl, _⟩ := run_pure_ok.mp ran
    exact .composite _

theorem keysetNodes_sourced {label : String} {key : SortKey}
    (labelled : label = t.label ∨ ∃ j, t.junction = some j ∧ label = j.label)
    (ran : (keysetNodes t label key).run ns = .ok (nodes, ns')) : Sourced s cx t nodes := by
  induction key generalizing ns nodes with
  | nil =>
    obtain ⟨rfl, _⟩ := run_pure_ok.mp ran
    exact .nil
  | cons c key inductionHypothesis =>
    obtain ⟨a, _, _, ran⟩ := run_bind_ok.mp ran
    obtain ⟨rest, _, later, ran⟩ := run_bind_ok.mp ran
    obtain ⟨rfl, rfl⟩ := run_pure_ok.mp ran
    refine .append (.column ?_) (inductionHypothesis later)
    by_cases own : label = t.label
    · exact .own rfl (if_pos own)
    · rcases labelled with same | ⟨j, through, rfl⟩
      · exact absurd same own
      · exact .linked rfl through (if_neg own)

/-- The sort key that drives a page is the table's own, or else its junction's. -/
theorem keyset?_label {key : SortKey} {label : String} (keyed : t.keyset? = some (key, label)) :
    label = t.label ∧ t.sortKey ≠ none ∨ ∃ j, t.junction = some j ∧ label = j.label := by
  unfold Table.keyset? at keyed
  split at keyed
  · rename_i own
    cases keyed
    exact .inl ⟨rfl, by simp [own]⟩
  · obtain ⟨j, through, keyed⟩ := Option.bind_eq_some_iff.mp keyed
    obtain ⟨_, _, keyed⟩ := Option.map_eq_some_iff.mp keyed
    cases keyed
    exact .inr ⟨j, through, rfl⟩

theorem pagingNodes_sourced (ran : (pagingNodes t).run ns = .ok (nodes, ns')) :
    Sourced s cx t nodes := by
  unfold pagingNodes at ran
  split at ran
  · obtain ⟨rfl, _⟩ := run_pure_ok.mp ran
    exact .nil
  rename_i paged
  split at ran
  · rename_i keyed
    exact keysetNodes_sourced ((keyset?_label keyed).imp_left And.left) ran
  · rename_i unkeyed ordered
    obtain ⟨label, _, _, ran⟩ := run_bind_ok.mp ran
    obtain ⟨rfl, _⟩ := run_pure_ok.mp ran
    refine .column (.total ?_ rfl)
    rw [Table.isOffsetPaginated, unkeyed, ordered]
    simpa using paged
  · obtain ⟨rfl, _⟩ := run_pure_ok.mp ran
    exact .nil

theorem batchNodes_sourced : Sourced s cx t (batchNodes t) := by
  unfold batchNodes
  split
  · exact .nil
  apply Sourced.column
  cases many : t.junctionBatch? with
  | none => exact .own rfl rfl
  | some b =>
    obtain ⟨j, through, _⟩ := Option.bind_eq_some_iff.mp many
    exact .linked rfl through (by rw [through]; rfl)

theorem headNodes_sourced {typeName : String} (known : type ∈ s.types)
    (configured : type.table = some config)
    (ran : (headNodes cx typeName config t).run ns = .ok (nodes, ns')) : Sourced s cx t nodes := by
  obtain ⟨identity, _, first, ran⟩ := run_bind_ok.mp ran
  obtain ⟨always, _, second, ran⟩ := run_bind_ok.mp ran
  obtain ⟨paging, _, third, ran⟩ := run_bind_ok.mp ran
  obtain ⟨rfl, _⟩ := run_pure_ok.mp ran
  have own := (identityNode_sourced known configured first).append
    (plainColumns_sourced known configured second)
  exact (own.append (pagingNodes_sourced third)).append batchNodes_sourced

theorem LeafSteps.sourced {x : Selection} (known : type ∈ s.types)
    (configured : type.table = some config)
    (h : LeafSteps cx type config t x ns nodes ns') : Sourced s cx t nodes := by
  cases h with
  | introspection => exact .nil
  | ignored ran => exact plainColumns_sourced known configured ran
  | scalar found ran =>
    unfold scalarNode at ran
    split at ran
    · rename_i computes
      obtain ⟨label, _, _, ran⟩ := run_bind_ok.mp ran
      obtain ⟨rfl, _⟩ := run_pure_ok.mp ran
      exact .column (.authored rfl (.field _ known found computes))
    · obtain ⟨column, _, here, ran⟩ := run_bind_ok.mp ran
      obtain ⟨rfl, _⟩ := run_pure_ok.mp ran
      exact .column (plainColumn_readsFrom known configured here)
  | noop => exact .noop _ _

theorem Walk.sourced {xs : List Selection} (h : Walk s cx type config t xs ns nodes ns')
    (known : type ∈ s.types) (configured : type.table = some config) :
    Sourced s cx t nodes := by
  induction h with
  | nil => exact .nil
  | leaves steps _ later => exact (steps.sourced known configured).append (later known configured)
  | table _ _ _ _ _ _ later => exact (later known configured).behind

/-- Every column of a planned table is read from the table or its junction, or is computed. -/
theorem Table.Declared.sourced {children : List Node} (h : t.Declared s cx children) :
    Sourced s cx t children := by
  cases h with
  | intro _ _ known planned =>
    have configured := planned.configured
    exact (headNodes_sourced known configured planned.head).append
      (planned.walk.sourced known configured)

end Nodes

end TreeQuery.Plan
