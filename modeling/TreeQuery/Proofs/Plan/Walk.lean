import TreeQuery.Proofs.Plan.WellFormed

/-!
Planning as a walk over the selections, with the labels that are given out on the way. Every table
of a plan is planned for a field that some type of the schema declares, with its filters.
-/

namespace TreeQuery.Plan

variable {Ctx : Type} {s : Schema Ctx} {cx : Ctx}

/-- The nodes that some selections add below a table of a type, between the labels given out before
and those given out after. -/
inductive Walk (s : Schema Ctx) (cx : Ctx) : ObjectType Ctx → TableConfig Ctx → Table →
    List Selection → Namespace → List Node → Namespace → Prop
  | nil {type : ObjectType Ctx} {config : TableConfig Ctx} {t : Table} {ns : Namespace} :
      Walk s cx type config t [] ns [] ns
  | leaves {type : ObjectType Ctx} {config : TableConfig Ctx} {t : Table} {x : Selection}
      {xs : List Selection} {here rest : List Node} {ns ns₁ ns' : Namespace}
      (steps : LeafSteps cx type config t x ns here ns₁)
      (later : Walk s cx type config t xs ns₁ rest ns') :
      Walk s cx type config t (x :: xs) ns (here ++ rest) ns'
  | table {type childType : ObjectType Ctx} {config childConfig : TableConfig Ctx}
      {t child : Table} {x : Selection} {xs : List Selection} {field : Field Ctx}
      {typeName : String} {many : Bool} {head below rest : List Node}
      {ns ns₁ ns₂ ns₃ ns' : Namespace} (found : type.field? x.name = some field)
      (known : s.type? typeName = some childType)
      (planned : child.PlannedBy s cx x field childType childConfig many ns ns₁ head ns₂ below ns₃)
      (selected : Walk s cx childType childConfig child (x.onObjects field.paginate) ns₂ below ns₃)
      (later : Walk s cx type config t xs ns₃ rest ns') :
      Walk s cx type config t (x :: xs) ns (.table child (head ++ below) :: rest) ns'

theorem walk_of_planFields {type : ObjectType Ctx} {config : TableConfig Ctx} {t : Table} :
    (xs : List Selection) → {nodes : List Node} → {ns ns' : Namespace} →
    (planFields s cx type config t xs).run ns = .ok (nodes, ns') →
    Walk s cx type config t xs ns nodes ns'
  | [], nodes, ns, ns', h => by
    obtain ⟨rfl, rfl⟩ := run_pure_ok.mp h
    exact .nil
  | x :: xs, nodes, ns, ns', h => by
    obtain ⟨here, ns₁, hx, h⟩ := run_bind_ok.mp h
    obtain ⟨rest, ns₂, hr, h⟩ := run_bind_ok.mp h
    obtain ⟨rfl, rfl⟩ := run_pure_ok.mp h
    have later := walk_of_planFields xs hr
    rcases planField_steps hx with steps | ⟨field, typeName, many, childType, childConfig, child,
      _, head, _, below, found, _, known, _, planned, rfl⟩
    · exact .leaves steps later
    · exact .table found known planned
        (walk_of_planFields (x.onObjects field.paginate) planned.below) later
termination_by xs => sizeOf xs
decreasing_by
  · rw [List.cons.sizeOf_spec]
    omega
  · exact sizeOf_onObjects _ _ _

theorem Table.PlannedBy.walk {x : Selection} {field : Field Ctx} {type : ObjectType Ctx}
    {config : TableConfig Ctx} {many : Bool} {t : Table} {head below : List Node}
    {ns ns₁ ns₂ ns' : Namespace}
    (h : t.PlannedBy s cx x field type config many ns ns₁ head ns₂ below ns') :
    Walk s cx type config t (x.onObjects field.paginate) ns₂ below ns' :=
  walk_of_planFields _ h.below

/-- A table and the nodes below it are planned for a field that the schema has. -/
inductive Table.Declared (s : Schema Ctx) (cx : Ctx) : Table → List Node → Prop
  | intro {host type : ObjectType Ctx} {x : Selection} {field : Field Ctx}
      {config : TableConfig Ctx} {many : Bool} {t : Table} {head below : List Node}
      {ns ns₁ ns₂ ns' : Namespace} (declared : host ∈ s.queryType :: s.types)
      (found : host.field? x.name = some field) (known : type ∈ s.types)
      (planned : t.PlannedBy s cx x field type config many ns ns₁ head ns₂ below ns') :
      Table.Declared s cx t (head ++ below)

theorem Walk.declared {type : ObjectType Ctx} {config : TableConfig Ctx} {t : Table}
    {xs : List Selection} {nodes : List Node} {ns ns' : Namespace}
    (h : Walk s cx type config t xs ns nodes ns') (known : type ∈ s.types) :
    Node.EverywhereIn (Table.Declared s cx) nodes := by
  induction h with
  | nil => trivial
  | leaves steps _ later =>
    exact Node.everywhereIn_append.mpr ⟨Node.everywhereIn_of_leaves steps.leaves, later known⟩
  | table found childKnown planned _ _ selected later =>
    have own : Node.EverywhereIn (Table.Declared s cx) _ :=
      Node.everywhereIn_of_leaves (headNodes_leaves planned.head)
    have host := List.mem_cons_of_mem s.queryType known
    have child := Schema.mem_types childKnown
    exact ⟨⟨.intro host found child planned, Node.everywhereIn_append.mpr ⟨own, selected child⟩⟩,
      later known⟩

theorem plan_declared {minify : Bool} {x : Selection} {root : Node}
    (h : s.plan minify cx x = .ok root) : root.Everywhere (Table.Declared s cx) := by
  obtain ⟨_, ran⟩ := plan_ok h
  rcases planRoot_steps ran with leaf | ⟨field, typeName, many, type, config, t, _, head, _, below,
    found, _, known, planned, rfl⟩
  · exact (Node.everywhereIn_of_leaves (leaves_cons leaf leaves_nil)).1
  · have own : Node.EverywhereIn (Table.Declared s cx) head :=
      Node.everywhereIn_of_leaves (headNodes_leaves planned.head)
    have child := Schema.mem_types known
    have selected := planned.walk.declared child
    exact ⟨.intro (List.mem_cons_self ..) found child planned,
      Node.everywhereIn_append.mpr ⟨own, selected⟩⟩

/-- A table has the filters that its field declares, its junction's as well as its own. -/
structure Table.FilteredAs (field : Field Ctx) (cx : Ctx) (t : Table) : Prop where
  own : t.filter = delegated field.filter t.arguments cx
  linked : t.junction.map Junction.filter =
    field.junction.map (fun c => delegated c.filter t.arguments cx)

theorem planTable_filteredAs {field : Field Ctx} {config : TableConfig Ctx} {many : Bool}
    {key : String} {args : Arguments} {l : Location} {t : Table} {ns ns' : Namespace}
    (h : (planTable cx field config many key args l).run ns = .ok (t, ns')) :
    t.FilteredAs field cx := by
  obtain ⟨label, _, _, h⟩ := run_bind_ok.mp h
  obtain ⟨batch, _, _, h⟩ := run_bind_ok.mp h
  obtain ⟨junction, _, hj, h⟩ := run_bind_ok.mp h
  obtain ⟨rfl, _⟩ := run_pure_ok.mp h
  refine ⟨rfl, ?_⟩
  change junction.map Junction.filter = field.junction.map (fun c => delegated c.filter args cx)
  cases declared : field.junction with
  | none =>
    rw [declared] at hj
    obtain ⟨rfl, _⟩ := run_pure_ok.mp hj
    rfl
  | some c =>
    rw [declared] at hj
    obtain ⟨label, _, _, hj⟩ := run_bind_ok.mp hj
    obtain ⟨batch, _, _, hj⟩ := run_bind_ok.mp hj
    obtain ⟨rfl, _⟩ := run_pure_ok.mp hj
    rfl

/-- The filters of a table are those of a field of the schema. -/
def Table.FilteredBySchema (s : Schema Ctx) (cx : Ctx) (t : Table) : Prop :=
  ∃ host ∈ s.queryType :: s.types, ∃ name field, host.field? name = some field ∧
    t.FilteredAs field cx

theorem Table.Declared.filtered {t : Table} {children : List Node}
    (h : t.Declared s cx children) : t.FilteredBySchema s cx := by
  cases h with
  | intro declared found _ planned =>
    obtain ⟨_, made⟩ := planned.table
    exact ⟨_, declared, _, _, found, planTable_filteredAs made⟩

end TreeQuery.Plan
