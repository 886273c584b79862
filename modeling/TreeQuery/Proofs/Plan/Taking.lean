import Mathlib.Logic.Relation
import TreeQuery.Proofs.Plan.Namespace
import TreeQuery.Proofs.Plan.Walk

/-!
Planning changes the labels in use only by taking some, one after the other. What taking one label
keeps is therefore kept by whatever is planned.
-/

namespace TreeQuery.Plan

namespace Namespace

/-- A label is taken. -/
inductive Step (ns ns' : Namespace) : Prop
  | column {name label : String} (taken : ns.takeColumn name = (label, ns'))
  | table {name label : String} (taken : ns.takeTable name = (label, ns'))

/-- Some labels are taken, one after the other. -/
abbrev Reaches : Namespace → Namespace → Prop := Relation.ReflTransGen Step

variable {ns ns' : Namespace}

/-- A step takes one label that was free, or else it gives a column its own name. -/
theorem Step.spec (h : Step ns ns') :
    ns'.minify = ns.minify ∧ (ns'.used = ns.used ∧ ns.minify = false ∨
      ∃ label ∉ ns.used, ns'.used = label :: ns.used) := by
  cases h with
  | column taken =>
    obtain ⟨minify, spec⟩ := takeColumn_spec taken
    refine ⟨minify, ?_⟩
    cases short : ns.minify with
    | true =>
      rw [short, if_pos rfl] at spec
      exact .inr ⟨_, spec.1, spec.2⟩
    | false =>
      unfold takeColumn at taken
      rw [short] at taken
      cases taken
      exact .inl ⟨rfl, rfl⟩
  | table taken =>
    obtain ⟨minify, fresh, used⟩ := takeTable_spec taken
    exact ⟨minify, .inr ⟨_, fresh, used⟩⟩

/-- All labels that are taken are short ones, if labels are to be short. -/
theorem Step.short (h : Step ns ns') (short : ns.minify = true) :
    ∃ n, ns'.used = Namespace.short n :: ns.used := by
  cases h with
  | column taken =>
    unfold takeColumn at taken
    rw [if_pos short] at taken
    cases taken
    exact ⟨_, rfl⟩
  | table taken =>
    unfold takeTable at taken
    rw [if_pos short] at taken
    cases taken
    exact ⟨_, rfl⟩

namespace Reaches

theorem minify (h : Reaches ns ns') : ns'.minify = ns.minify := by
  induction h with
  | refl => rfl
  | tail _ step inductionHypothesis => exact step.spec.1.trans inductionHypothesis

/-- No label that was taken becomes free. -/
theorem kept (h : Reaches ns ns') : ns.used ⊆ ns'.used := by
  induction h with
  | refl => exact List.Subset.refl _
  | tail _ step inductionHypothesis =>
    apply List.Subset.trans inductionHypothesis
    obtain ⟨_, ⟨same, _⟩ | ⟨label, _, used⟩⟩ := step.spec
    · rw [same]
      exact List.Subset.refl _
    · rw [used]
      exact List.subset_cons_self _ _

/-- Labels that are taken stay different from each other. -/
theorem distinct (h : Reaches ns ns') (before : ns.used.Nodup) : ns'.used.Nodup := by
  induction h with
  | refl => exact before
  | tail _ step inductionHypothesis =>
    obtain ⟨_, ⟨same, _⟩ | ⟨label, fresh, used⟩⟩ := step.spec
    · rwa [same]
    · rw [used]
      exact List.nodup_cons.mpr ⟨fresh, inductionHypothesis⟩

/-- Short labels are spelled in letters. -/
theorem unbroken (h : Reaches ns ns') (short : ns.minify = true)
    (before : ∀ l ∈ ns.used, '_' ∉ l.toList) : ∀ l ∈ ns'.used, '_' ∉ l.toList := by
  induction h with
  | refl => exact before
  | tail earlier step inductionHypothesis =>
    obtain ⟨n, used⟩ := step.short ((minify earlier).trans short)
    rw [used]
    exact List.forall_mem_cons.mpr ⟨underscore_notMem_short n, inductionHypothesis⟩

end Reaches

end Namespace

/-- Between the labels before and after it runs, some are taken and nothing else happens. -/
structure OnlyTakes {α : Type} (m : Planner α) : Prop where
  reached : ∀ {ns a ns'}, m.run ns = .ok (a, ns') → ns.Reaches ns'

namespace OnlyTakes

variable {α β : Type}

theorem pure (a : α) : OnlyTakes (pure a) where
  reached ran := by
    obtain ⟨_, rfl⟩ := run_pure_ok.mp ran
    exact .refl

theorem throw (e : PlanError) : OnlyTakes (throw e : Planner α) where
  reached ran := (run_throw_ok.mp ran).elim

theorem bind {m : Planner α} {f : α → Planner β} (first : OnlyTakes m)
    (later : ∀ a, OnlyTakes (f a)) : OnlyTakes (m >>= f) where
  reached ran := by
    obtain ⟨a, _, here, rest⟩ := run_bind_ok.mp ran
    exact (first.reached here).trans ((later a).reached rest)

end OnlyTakes

variable {Ctx : Type} {cx : Ctx} {config : TableConfig Ctx} {t : Table}

theorem columnLabel_onlyTakes (name : String) : OnlyTakes (columnLabel name) where
  reached ran := .single (.column (Except.ok.inj ran))

theorem tableLabel_onlyTakes (name : String) : OnlyTakes (tableLabel name) where
  reached ran := .single (.table (Except.ok.inj ran))

theorem planKeys_onlyTakes (thisKey parentKey : String) : OnlyTakes (planKeys thisKey parentKey) := by
  have key (column : String) : OnlyTakes (batchKey column) :=
    (columnLabel_onlyTakes column).bind (fun _ => .pure _)
  exact (key thisKey).bind (fun _ => (key parentKey).bind (fun _ => .pure _))

theorem planBatch?_onlyTakes (b : Option BatchConfig) : OnlyTakes (planBatch? b) := by
  cases b with
  | none => exact .pure _
  | some b => exact (planKeys_onlyTakes _ _).bind (fun _ => .pure _)

theorem planJunctionBatch?_onlyTakes (args : Arguments) (b : Option (JunctionBatchConfig Ctx)) :
    OnlyTakes (planJunctionBatch? args cx b) := by
  cases b with
  | none => exact .pure _
  | some b => exact (planKeys_onlyTakes _ _).bind (fun _ => .pure _)

theorem planJunction?_onlyTakes (args : Arguments) (c : Option (JunctionConfig Ctx)) :
    OnlyTakes (planJunction? args cx c) := by
  cases c with
  | none => exact .pure _
  | some c =>
    apply (tableLabel_onlyTakes _).bind
    intro label
    exact (planJunctionBatch?_onlyTakes args c.batch).bind (fun _ => .pure _)

theorem planTable_onlyTakes (field : Field Ctx) (many : Bool) (key : String) (args : Arguments)
    (l : Location) : OnlyTakes (planTable cx field config many key args l) := by
  apply (tableLabel_onlyTakes key).bind
  intro label
  apply (planBatch?_onlyTakes field.batch).bind
  intro batch
  exact (planJunction?_onlyTakes args field.junction).bind (fun _ => .pure _)

theorem plainColumn_onlyTakes (column fieldName : String) (l : Location) :
    OnlyTakes (plainColumn cx config t column fieldName l) :=
  (columnLabel_onlyTakes fieldName).bind (fun _ => .pure _)

theorem plainColumns_onlyTakes (l : Location) (columns : List String) :
    OnlyTakes (plainColumns cx config t l columns) := by
  induction columns with
  | nil => exact .pure _
  | cons c columns inductionHypothesis =>
    apply (plainColumn_onlyTakes c c l).bind
    intro column
    exact inductionHypothesis.bind (fun _ => .pure _)

theorem identityNode_onlyTakes (typeName : String) :
    OnlyTakes (identityNode cx typeName config t) := by
  unfold identityNode
  split
  · exact .throw _
  · exact (plainColumn_onlyTakes _ _ _).bind (fun _ => .pure _)
  · exact (columnLabel_onlyTakes _).bind (fun _ => .pure _)

theorem keysetNodes_onlyTakes (label : String) (key : SortKey) :
    OnlyTakes (keysetNodes t label key) := by
  induction key with
  | nil => exact .pure _
  | cons c key inductionHypothesis =>
    apply (columnLabel_onlyTakes c.name).bind
    intro a
    exact inductionHypothesis.bind (fun _ => .pure _)

theorem pagingNodes_onlyTakes : OnlyTakes (pagingNodes t) := by
  unfold pagingNodes
  split
  · exact .pure _
  split
  · exact keysetNodes_onlyTakes _ _
  · exact (columnLabel_onlyTakes _).bind (fun _ => .pure _)
  · exact .pure _

theorem headNodes_onlyTakes (typeName : String) : OnlyTakes (headNodes cx typeName config t) := by
  apply (identityNode_onlyTakes typeName).bind
  intro identity
  apply (plainColumns_onlyTakes _ _).bind
  intro always
  exact pagingNodes_onlyTakes.bind (fun _ => .pure _)

theorem scalarNode_onlyTakes (field : Field Ctx) (key : String) (args : Arguments) (l : Location) :
    OnlyTakes (scalarNode cx config t field key args l) := by
  unfold scalarNode
  split
  · exact (columnLabel_onlyTakes _).bind (fun _ => .pure _)
  · exact (plainColumn_onlyTakes _ _ _).bind (fun _ => .pure _)

theorem LeafSteps.reaches {type : ObjectType Ctx} {x : Selection} {nodes : List Node}
    {ns ns' : Namespace} (h : LeafSteps cx type config t x ns nodes ns') : ns.Reaches ns' := by
  cases h with
  | introspection => exact .refl
  | ignored ran => exact (plainColumns_onlyTakes _ _).reached ran
  | scalar _ ran => exact (scalarNode_onlyTakes _ _ _ _).reached ran
  | noop => exact .refl

variable {s : Schema Ctx} {ns ns' : Namespace}

theorem Table.PlannedBy.reaches {x : Selection} {field : Field Ctx} {type : ObjectType Ctx}
    {many : Bool} {head below : List Node} {ns₁ ns₂ : Namespace}
    (h : t.PlannedBy s cx x field type config many ns ns₁ head ns₂ below ns')
    (selected : ns₂.Reaches ns') : ns.Reaches ns' := by
  obtain ⟨_, planned⟩ := h.table
  have own := (planTable_onlyTakes _ _ _ _ _).reached planned
  exact (own.trans ((headNodes_onlyTakes _).reached h.head)).trans selected

theorem Walk.reaches {type : ObjectType Ctx} {xs : List Selection} {nodes : List Node}
    (h : Walk s cx type config t xs ns nodes ns') : ns.Reaches ns' := by
  induction h with
  | nil => exact .refl
  | leaves steps _ later => exact steps.reaches.trans later
  | table _ _ planned _ _ selected later => exact (planned.reaches selected).trans later

end TreeQuery.Plan
