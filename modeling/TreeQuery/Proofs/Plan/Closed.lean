import TreeQuery.Proofs.Avoidance
import TreeQuery.Proofs.Plan.WellFormed

/-!
What planning takes for granted of a schema, and what validation has seen to: a field leads to a
type that is declared, and a table has a unique key.
-/

namespace TreeQuery

section Schema

variable {Ctx : Type} {s : Schema Ctx}

structure Schema.Closed (s : Schema Ctx) : Prop where
  query : s.queryType ∈ s.types
  declared : ∀ t ∈ s.types, ∀ name f, t.field? name = some f →
    ∀ referred many, f.type = .object referred many → ∃ type, s.type? referred = some type
  keyed : ∀ t ∈ s.types, ∀ config, t.table = some config → config.uniqueKey ≠ []

theorem Field.declared_of_validate {typeName : String} {types : List String} {f : Field Ctx}
    (h : f.validate typeName types = .ok ()) {referred : String} {many : Bool}
    (leads : f.type = .object referred many) : referred ∈ types := by
  rw [Field.validate, leads] at h
  by_contra unknown
  simp [unknown] at h

theorem ObjectType.keyed_of_validate {types : List String} {t : ObjectType Ctx}
    (h : t.validate types = .ok ()) {config : TableConfig Ctx} (backed : t.table = some config) :
    config.uniqueKey ≠ [] := by
  intro keyless
  rw [ObjectType.validate, backed] at h
  simp [keyless, bind, Except.bind, throw, throwThe, MonadExceptOf.throw] at h

theorem Schema.closed_of_build {types : List (ObjectType Ctx)} {queryType : String}
    (h : Schema.build types queryType = .ok s) : s.Closed := by
  obtain ⟨_, _, h⟩ := bind_eq_ok.mp h
  split at h
  · cases h
  rename_i q found
  obtain ⟨_, valid, h⟩ := bind_eq_ok.mp h
  cases h
  refine ⟨List.mem_of_find?_eq_some found, ?_, ?_⟩
  · intro t ht name f hf referred many leads
    have validated := ObjectType.fields_of_validate (forM_eq_ok valid t ht) hf
    obtain ⟨u, hu, named⟩ := List.mem_map.mp (Field.declared_of_validate validated leads)
    refine Option.isSome_iff_exists.mp (List.find?_isSome.mpr ⟨u, hu, ?_⟩)
    exact decide_eq_true named
  · intro t ht config backed
    exact ObjectType.keyed_of_validate (forM_eq_ok valid t ht) backed

end Schema

namespace Plan

/-- Errors at what the planner takes for granted. -/
def PlanError.Internal : PlanError → Prop
  | .unknownType .. | .notATable | .noTable _ | .noUniqueKey _ => True
  | .noField .. | .scalarRoot _ | .noRelation .. => False

variable {Ctx : Type} {s : Schema Ctx} {cx : Ctx}

section Columns

variable {bad : PlanError → Prop}

theorem columnLabel_avoids (name : String) : AvoidsFrom bad (columnLabel name) := .modifyGet _

theorem planKeys_avoids (thisKey parentKey : String) :
    AvoidsFrom bad (planKeys thisKey parentKey) := by
  have key (column : String) : AvoidsFrom bad (batchKey column) :=
    (columnLabel_avoids column).bind (fun _ => .pure _)
  exact (key thisKey).bind (fun _ => (key parentKey).bind (fun _ => .pure _))

theorem planBatch?_avoids (config : Option BatchConfig) : AvoidsFrom bad (planBatch? config) := by
  cases config with
  | none => exact .pure _
  | some b => exact (planKeys_avoids b.thisKey b.parentKey).bind (fun _ => .pure _)

theorem planJunction?_avoids (args : Arguments) (config : Option (JunctionConfig Ctx)) :
    AvoidsFrom bad (planJunction? args cx config) := by
  have linked (config : Option (JunctionBatchConfig Ctx)) :
      AvoidsFrom bad (planJunctionBatch? args cx config) := by
    cases config with
    | none => exact .pure _
    | some b => exact (planKeys_avoids b.thisKey b.parentKey).bind (fun _ => .pure _)
  cases config with
  | none => exact .pure _
  | some c =>
    have label : AvoidsFrom bad (tableLabel (junctionName c.table)) := .modifyGet _
    exact label.bind (fun _ => (linked c.batch).bind (fun _ => .pure _))

/-- A table by itself can always be planned. -/
theorem planTable_avoids (field : Field Ctx) (config : TableConfig Ctx) (many : Bool)
    (key : String) (args : Arguments) (l : Location) :
    AvoidsFrom bad (planTable cx field config many key args l) := by
  have label : AvoidsFrom bad (tableLabel key) := .modifyGet _
  apply label.bind
  intro _
  apply (planBatch?_avoids field.batch).bind
  intro _
  exact (planJunction?_avoids args field.junction).bind (fun _ => .pure _)

theorem plainColumn_avoids (config : TableConfig Ctx) (t : Table) (column fieldName : String)
    (l : Location) : AvoidsFrom bad (plainColumn cx config t column fieldName l) :=
  (columnLabel_avoids fieldName).bind (fun _ => .pure _)

theorem plainColumns_avoids (config : TableConfig Ctx) (t : Table) (l : Location)
    (columns : List String) : AvoidsFrom bad (plainColumns cx config t l columns) := by
  induction columns with
  | nil => exact .pure _
  | cons c columns inductionHypothesis =>
    exact (plainColumn_avoids config t c c l).bind
      (fun _ => inductionHypothesis.bind (fun _ => .pure _))

theorem keysetNodes_avoids (t : Table) (label : String) (key : SortKey) :
    AvoidsFrom bad (keysetNodes t label key) := by
  induction key with
  | nil => exact .pure _
  | cons c key inductionHypothesis =>
    exact (columnLabel_avoids c.name).bind (fun _ => inductionHypothesis.bind (fun _ => .pure _))

theorem pagingNodes_avoids (t : Table) : AvoidsFrom bad (pagingNodes t) := by
  rw [pagingNodes]
  refine .ite (fun _ => .pure _) (fun _ => ?_)
  split
  · exact keysetNodes_avoids t _ _
  · exact (columnLabel_avoids totalColumn).bind (fun _ => .pure _)
  · exact .pure _

theorem scalarNode_avoids (config : TableConfig Ctx) (t : Table) (field : Field Ctx) (key : String)
    (args : Arguments) (l : Location) :
    AvoidsFrom bad (scalarNode cx config t field key args l) := by
  rw [scalarNode]
  split
  · exact (columnLabel_avoids key).bind (fun _ => .pure _)
  · exact (plainColumn_avoids config t field.columnName key l).bind (fun _ => .pure _)

/-- The columns that a table always has can be planned if it has a unique key. -/
theorem headNodes_avoids (typeName : String) {config : TableConfig Ctx}
    (keyed : config.uniqueKey ≠ []) (t : Table) :
    AvoidsFrom bad (headNodes cx typeName config t) := by
  have identity : AvoidsFrom bad (identityNode cx typeName config t) := by
    rw [identityNode]
    split
    · rename_i keyless
      exact absurd keyless keyed
    · exact (plainColumn_avoids config t _ _ _).bind (fun _ => .pure _)
    · exact (columnLabel_avoids _).bind (fun _ => .pure _)
  apply identity.bind
  intro _
  apply (plainColumns_avoids config t t.location config.alwaysFetch).bind
  intro _
  exact (pagingNodes_avoids t).bind (fun _ => .pure _)

end Columns

section Requests

variable {type : ObjectType Ctx} {field : Field Ctx}

theorem findField_avoids (type : ObjectType Ctx) (name : String) (l : Location) :
    Avoids PlanError.Internal (findField type name l) := by
  rw [findField]
  split
  · exact .ok _
  · exact .error id

theorem target_avoids (closed : s.Closed) (known : type ∈ s.types) {name : String}
    (found : type.field? name = some field) (l : Location) :
    Avoids PlanError.Internal (target s field l) := by
  rw [target]
  split
  · exact .ok _
  · rename_i referred many leads
    obtain ⟨child, declared⟩ := closed.declared type known name field found referred many leads
    rw [declared]
    exact .ok _

theorem checkRelated_avoids (field : Field Ctx) (child : ObjectType Ctx) (l : Location) :
    Avoids PlanError.Internal (checkRelated field child l) := by
  rw [checkRelated]
  split
  · exact .error id
  · exact .ok _

theorem requireTable_avoids {config : TableConfig Ctx} (backed : type.table = some config)
    (t : Table) : Avoids PlanError.Internal (requireTable type (.table t [])) := by
  rw [requireTable_ok.mpr ⟨rfl, backed⟩]
  exact .ok _

/-- What is selected on the objects of a table can be planned if it can be below any table. -/
theorem planSelected_avoids {t : Table} {config : TableConfig Ctx} {x : Selection}
    (below : ∀ paginate, AvoidsFrom PlanError.Internal
      (planFields s cx type config t (x.onObjects paginate))) :
    AvoidsFrom PlanError.Internal (if t.paginate then planEdges s cx type config t x.selections
      else planFields s cx type config t x.selections) := by
  rw [← planObjects_eq]
  exact below t.paginate

theorem planField_avoids (closed : s.Closed) (known : type ∈ s.types) (config : TableConfig Ctx)
    (t : Table) (x : Selection)
    (below : ∀ type ∈ s.types, ∀ config t paginate, AvoidsFrom PlanError.Internal
      (planFields s cx type config t (x.onObjects paginate))) :
    AvoidsFrom PlanError.Internal (planField s cx type config t x) := by
  obtain ⟨name, label, args, selections⟩ := x
  rw [planField]
  refine .ite (fun _ => .pure _) (fun _ => ?_)
  refine .lift_bind (findField_avoids type name _) (fun field found => ?_)
  refine .ite (fun _ => plainColumns_avoids config t _ _) (fun _ => ?_)
  refine .lift_bind (target_avoids closed known (findField_ok found) _) (fun leads reached => ?_)
  split
  · exact (scalarNode_avoids config t field _ _ _).bind (fun _ => .pure _)
  rename_i childType many
  obtain ⟨_, _, childKnown⟩ := target_ok reached
  split
  · exact .pure _
  rename_i childConfig backed
  refine (planTable_avoids field childConfig many _ _ _).bind (fun child => ?_)
  refine .lift_bind (checkRelated_avoids field childType _) (fun _ _ => ?_)
  refine .lift_bind (requireTable_avoids backed child) (fun own same => ?_)
  obtain ⟨child', childConfig'⟩ := own
  obtain ⟨rfl, configured⟩ := requireTable_ok.mp same
  have childKnown := Schema.mem_types childKnown
  have selected := planSelected_avoids (below childType childKnown childConfig' child)
  have head := closed.keyed childType childKnown _ configured
  exact (headNodes_avoids _ head child).bind (fun _ => selected.bind (fun _ => .pure _))

theorem planFields_avoids (closed : s.Closed) (cx : Ctx) {type : ObjectType Ctx}
    (known : type ∈ s.types) (config : TableConfig Ctx) (t : Table) : (xs : List Selection) →
    AvoidsFrom PlanError.Internal (planFields s cx type config t xs)
  | [] => .pure _
  | x :: xs => by
    rw [planFields]
    have here := planField_avoids closed known config t x
      (fun _ childKnown config t paginate =>
        planFields_avoids closed cx childKnown config t (x.onObjects paginate))
    exact here.bind (fun _ => (planFields_avoids closed cx known config t xs).bind (fun _ => .pure _))
termination_by xs => sizeOf xs
decreasing_by
  · exact sizeOf_onObjects _ _ _
  · rw [List.cons.sizeOf_spec]
    omega

theorem planRoot_avoids (closed : s.Closed) (cx : Ctx) (x : Selection) :
    AvoidsFrom PlanError.Internal (planRoot s cx x) := by
  refine .lift_bind (findField_avoids s.queryType x.name _) (fun field found => ?_)
  refine .lift_bind (target_avoids closed closed.query (findField_ok found) _)
    (fun leads reached => ?_)
  split
  · exact .throw id
  rename_i type many
  obtain ⟨_, _, known⟩ := target_ok reached
  split
  · exact .pure _
  rename_i config backed
  refine (planTable_avoids field config many _ _ _).bind (fun t => ?_)
  refine .lift_bind (requireTable_avoids backed t) (fun own same => ?_)
  obtain ⟨t', config'⟩ := own
  obtain ⟨rfl, configured⟩ := requireTable_ok.mp same
  have known := Schema.mem_types known
  have selected := planSelected_avoids
    (fun paginate => planFields_avoids closed cx known config' t (x.onObjects paginate))
  have head := closed.keyed type known _ configured
  exact (headNodes_avoids _ head t).bind (fun _ => selected.bind (fun _ => .pure _))

/-- Nothing that planning takes for granted can be missing. -/
theorem plan_avoids_internal (closed : s.Closed) (minify : Bool) (cx : Ctx) (x : Selection) :
    Avoids PlanError.Internal (s.plan minify cx x) := by
  rw [Schema.plan]
  exact (planRoot_avoids closed cx x (Namespace.start minify)).map Prod.fst

end Requests

section Nested

/-- Every table right below another one is reached in some way. -/
def Table.NestsRelated (_t : Table) (children : List Node) : Prop :=
  ∀ u ∈ Node.tables children, u.relationCount ≠ 0

theorem Table.OfField.related {field : Field Ctx} {many : Bool} {key : String} {t : Table}
    (h : t.OfField field many key) (related : field.relationCount ≠ 0) : t.relationCount ≠ 0 := by
  rwa [Table.relationCount, h.join, h.batch, h.junction]

theorem Planned.tables_related {type : ObjectType Ctx} {xs : List Selection} {nodes : List Node}
    (h : Planned s type xs nodes) : ∀ u ∈ Node.tables nodes, u.relationCount ≠ 0 := by
  induction h with
  | nil => simp [Node.tables]
  | leaves leaves _ later =>
    rw [Node.tables_append, Node.tables_of_leaves leaves]
    exact later
  | table _ _ _ related reached _ _ _ _ later =>
    exact List.forall_mem_cons.mpr ⟨reached.related related, later⟩

/-- What a table's own columns and the selections on its objects are planned as. -/
theorem Planned.table_nestsRelated {type : ObjectType Ctx} {xs : List Selection}
    {head below : List Node} (own : Leaves head) (h : Planned s type xs below) (t : Table) :
    t.NestsRelated (head ++ below) := by
  rw [Table.NestsRelated, Node.tables_append, Node.tables_of_leaves own]
  exact h.tables_related

theorem Planned.nestsRelated {type : ObjectType Ctx} {xs : List Selection} {nodes : List Node}
    (h : Planned s type xs nodes) : Node.EverywhereIn Table.NestsRelated nodes := by
  induction h with
  | nil => trivial
  | leaves leaves _ later =>
    exact Node.everywhereIn_append.mpr ⟨Node.everywhereIn_of_leaves leaves, later⟩
  | table _ _ _ _ _ own selected _ below later =>
    exact ⟨⟨selected.table_nestsRelated own _, Node.everywhereIn_append.mpr
      ⟨Node.everywhereIn_of_leaves own, below⟩⟩, later⟩

theorem plan_nestsRelated {minify : Bool} {x : Selection} {root : Node}
    (h : s.plan minify cx x = .ok root) : root.Everywhere Table.NestsRelated := by
  obtain ⟨_, ran⟩ := plan_ok h
  rcases planRoot_ok ran with leaf | ⟨field, typeName, many, childType, t, head, below, found, leads,
    known, reached, own, selected, rfl⟩
  · exact (Node.everywhereIn_of_leaves (leaves_cons leaf leaves_nil)).1
  · exact ⟨selected.table_nestsRelated own t, Node.everywhereIn_append.mpr
      ⟨Node.everywhereIn_of_leaves own, selected.nestsRelated⟩⟩

end Nested

end Plan

end TreeQuery
