import TreeQuery.Proofs.Plan.WellFormed

/-!
What a request asks of the objects of each table. A plan has a table for a selection at the key of
the selection, and a scalar that is asked for is fetched from where its field is declared to be.
-/

namespace TreeQuery

namespace Plan

/-- A property that each table hands on to the tables below it. -/
theorem Node.everywhere_of_step {P : Table → List Node → Prop}
    (step : ∀ t children u below, P t children → .table u below ∈ children → P u below) :
    (n : Node) → (∀ t children, n = .table t children → P t children) → n.Everywhere P
  | .table t children, h => by
    have here := h t children rfl
    refine ⟨here, Node.everywhereIn_iff.mpr (fun n hn => ?_)⟩
    refine Node.everywhere_of_step step n (fun u below same => ?_)
    rw [same] at hn
    exact step t children u below here hn
  | .column _, _ | .composite _, _ | .noop _ _, _ => trivial

variable {Ctx : Type} {s : Schema Ctx} {cx : Ctx}

/-- A table of the plan, the type of its objects and what is asked of them. A selection is answered
by the table at its key. -/
inductive Requested (s : Schema Ctx) (x : Selection) (root : Node) :
    Table → List Node → ObjectType Ctx → List Selection → Prop
  | root {t : Table} {children : List Node} {field : Field Ctx} {typeName : String} {many : Bool}
      {type : ObjectType Ctx} (planned : root = .table t children)
      (found : s.queryType.field? x.name = some field) (leads : field.type = .object typeName many)
      (known : s.type? typeName = some type) :
      Requested s x root t children type (x.onObjects field.paginate)
  | under {t u : Table} {children below : List Node} {type childType : ObjectType Ctx}
      {xs : List Selection} {y : Selection} {field : Field Ctx} {typeName : String} {many : Bool}
      (above : Requested s x root t children type xs) (asked : y ∈ xs)
      (member : .table u below ∈ children) (key : u.fieldName = y.responseKey)
      (found : type.field? y.name = some field) (leads : field.type = .object typeName many)
      (known : s.type? typeName = some childType) :
      Requested s x root u below childType (y.onObjects field.paginate)

/-- Where a scalar is declared to be found: in its own expression, or else in its column, which is
computed if the table computes its columns. -/
def scalarSource (cx : Ctx) (config : TableConfig Ctx) (t : Table) (field : Field Ctx)
    (args : Arguments) : ColumnSource :=
  match field.expression, config.columnExpression with
  | some f, _ => .expression (f (Identifier.quote t.label) args cx)
  | none, some f => .expression (f (Identifier.quote t.label) field.columnName t.arguments cx)
  | none, none => .name field.columnName

section Fields

variable {type : ObjectType Ctx} {config : TableConfig Ctx} {t : Table} {xs : List Selection}
variable {nodes : List Node} {ns ns' : Namespace}

theorem scalarNode_source {field : Field Ctx} {key : String} {args : Arguments} {l : Location}
    {n : Node} (ran : (scalarNode cx config t field key args l).run ns = .ok (n, ns')) :
    ∃ c : Column, n = .column c ∧ c.fieldName = key ∧ c.fromTable = none ∧
      c.source = scalarSource cx config t field args := by
  unfold scalarNode at ran
  unfold scalarSource
  split at ran
  · rename_i f own
    obtain ⟨label, _, _, ran⟩ := run_bind_ok.mp ran
    obtain ⟨rfl, _⟩ := run_pure_ok.mp ran
    exact ⟨_, rfl, rfl, rfl, by rw [own]⟩
  · rename_i plain
    obtain ⟨column, _, made, ran⟩ := run_bind_ok.mp ran
    obtain ⟨rfl, _⟩ := run_pure_ok.mp ran
    obtain ⟨label, _, _, made⟩ := run_bind_ok.mp made
    obtain ⟨rfl, _⟩ := run_pure_ok.mp made
    refine ⟨_, rfl, rfl, rfl, ?_⟩
    rw [plain]
    cases config.columnExpression <;> rfl

/-- A scalar that is asked for, neither ignored nor of introspection, is planned as a column. -/
theorem planField_scalar {x : Selection} {field : Field Ctx}
    (found : type.field? x.name = some field) (scalar : field.type = .scalar)
    (kept : field.ignored = false) (plain : isIntrospection x.name = false)
    (ran : (planField s cx type config t x).run ns = .ok (nodes, ns')) :
    ∃ c : Column, nodes = [.column c] ∧ c.fieldName = x.responseKey ∧ c.fromTable = none ∧
      c.source = scalarSource cx config t field x.arguments := by
  obtain ⟨name, label, args, selections⟩ := x
  rw [planField] at ran
  split at ran
  · rename_i introspection
    cases plain.symm.trans introspection
  obtain ⟨field', _, hf, ran⟩ := run_bind_ok.mp ran
  obtain ⟨found', rfl⟩ := run_lift_ok.mp hf
  cases found.symm.trans (findField_ok found')
  split at ran
  · rename_i ignored
    cases kept.symm.trans ignored
  obtain ⟨leads, _, ht, ran⟩ := run_bind_ok.mp ran
  obtain ⟨leads, rfl⟩ := run_lift_ok.mp ht
  split at ran
  · obtain ⟨n, _, made, ran⟩ := run_bind_ok.mp ran
    obtain ⟨rfl, _⟩ := run_pure_ok.mp ran
    obtain ⟨c, rfl, spec⟩ := scalarNode_source made
    exact ⟨c, rfl, spec⟩
  · obtain ⟨_, object, _⟩ := target_ok leads
    cases scalar.symm.trans object

theorem planFields_scalar {y : Selection} (asked : y ∈ xs) {field : Field Ctx}
    (found : type.field? y.name = some field) (scalar : field.type = .scalar)
    (kept : field.ignored = false) (plain : isIntrospection y.name = false)
    (ran : (planFields s cx type config t xs).run ns = .ok (nodes, ns')) :
    ∃ c : Column, .column c ∈ nodes ∧ c.fieldName = y.responseKey ∧ c.fromTable = none ∧
      c.source = scalarSource cx config t field y.arguments := by
  induction xs generalizing ns nodes with
  | nil => cases asked
  | cons x xs inductionHypothesis =>
    obtain ⟨here, _, first, ran⟩ := run_bind_ok.mp ran
    obtain ⟨rest, _, later, ran⟩ := run_bind_ok.mp ran
    obtain ⟨rfl, rfl⟩ := run_pure_ok.mp ran
    rcases List.mem_cons.mp asked with rfl | asked
    · obtain ⟨c, rfl, spec⟩ := planField_scalar found scalar kept plain first
      exact ⟨c, List.mem_cons_self .., spec⟩
    · obtain ⟨c, member, spec⟩ := inductionHypothesis asked later
      exact ⟨c, List.mem_append_right _ member, spec⟩

/-- A table is planned for one of the selections, at its key. -/
theorem planFields_table {u : Table} {below : List Node} (member : .table u below ∈ nodes)
    (ran : (planFields s cx type config t xs).run ns = .ok (nodes, ns')) :
    ∃ y ∈ xs, ∃ field typeName many childType childConfig,
      type.field? y.name = some field ∧ field.type = .object typeName many ∧
      s.type? typeName = some childType ∧ ∃ ns₁ ns₂ ns₃ ns₄ head inner, below = head ++ inner ∧
        u.PlannedBy s cx y field childType childConfig many ns₁ ns₂ head ns₃ inner ns₄ := by
  induction xs generalizing ns nodes with
  | nil =>
    obtain ⟨rfl, _⟩ := run_pure_ok.mp ran
    cases member
  | cons x xs inductionHypothesis =>
    obtain ⟨here, _, first, ran⟩ := run_bind_ok.mp ran
    obtain ⟨rest, _, later, ran⟩ := run_bind_ok.mp ran
    obtain ⟨rfl, rfl⟩ := run_pure_ok.mp ran
    rcases List.mem_append.mp member with own | member
    · rcases planField_steps first with leaf | ⟨field, typeName, many, childType, childConfig, child,
        _, _, _, _, found, leads, known, _, planned, rfl⟩
      · cases leaf.leaves _ own
      · cases List.mem_singleton.mp own
        exact ⟨x, List.mem_cons_self .., field, typeName, many, childType, childConfig, found, leads,
          known, _, _, _, _, _, _, rfl, planned⟩
    · obtain ⟨y, asked, spec⟩ := inductionHypothesis member later
      exact ⟨y, List.mem_cons_of_mem _ asked, spec⟩

end Fields

/-- The nodes below a table are planned for what is asked of its objects. -/
structure Table.PlannedFor (s : Schema Ctx) (cx : Ctx) (t : Table) (children : List Node)
    (type : ObjectType Ctx) (config : TableConfig Ctx) (xs : List Selection) : Prop where
  configured : type.table = some config
  distinct : Selection.DistinctKeys s type xs
  planned : ∃ head below ns ns', children = head ++ below ∧ Leaves head ∧
    (planFields s cx type config t xs).run ns = .ok (below, ns')

theorem Table.PlannedBy.plannedFor {x : Selection} {field : Field Ctx} {type : ObjectType Ctx}
    {config : TableConfig Ctx} {many : Bool} {t : Table} {head below : List Node}
    {ns ns₁ ns₂ ns' : Namespace}
    (h : t.PlannedBy s cx x field type config many ns ns₁ head ns₂ below ns')
    (distinct : Selection.DistinctKeys s type (x.onObjects field.paginate)) :
    t.PlannedFor s cx (head ++ below) type config (x.onObjects field.paginate) :=
  ⟨h.configured, distinct, head, below, ns₂, ns', rfl, headNodes_leaves h.head, h.below⟩

namespace Table.PlannedFor

variable {t : Table} {children : List Node} {type : ObjectType Ctx} {config : TableConfig Ctx}
variable {xs : List Selection}

/-- A table below is planned for the one selection that has its key. -/
theorem below (h : t.PlannedFor s cx children type config xs) {u : Table} {nodes : List Node}
    (member : .table u nodes ∈ children) : ∃ y ∈ xs, u.fieldName = y.responseKey ∧
      ∃ field typeName many childType childConfig, type.field? y.name = some field ∧
        field.type = .object typeName many ∧ s.type? typeName = some childType ∧
        u.PlannedFor s cx nodes childType childConfig (y.onObjects field.paginate) := by
  obtain ⟨head, below, ns, ns', rfl, own, ran⟩ := h.planned
  have selected : .table u nodes ∈ below := by
    rcases List.mem_append.mp member with leaf | selected
    · cases own _ leaf
    · exact selected
  obtain ⟨y, asked, field, typeName, many, childType, childConfig, found, leads, known, _, _, _, _,
    _, _, rfl, planned⟩ := planFields_table selected ran
  exact ⟨y, asked, planned.reached.fieldName, field, typeName, many, childType, childConfig, found,
    leads, known, planned.plannedFor (h.distinct.of_mem asked found leads known)⟩

/-- A scalar that is asked for is fetched. -/
theorem scalar (h : t.PlannedFor s cx children type config xs) {y : Selection} (asked : y ∈ xs)
    {field : Field Ctx} (found : type.field? y.name = some field) (scalar : field.type = .scalar)
    (kept : field.ignored = false) (plain : isIntrospection y.name = false) :
    ∃ c : Column, .column c ∈ children ∧ c.fieldName = y.responseKey ∧ c.fromTable = none ∧
      c.source = scalarSource cx config t field y.arguments := by
  obtain ⟨head, below, ns, ns', rfl, _, ran⟩ := h.planned
  obtain ⟨c, member, spec⟩ := planFields_scalar asked found scalar kept plain ran
  exact ⟨c, List.mem_append_right _ member, spec⟩

/-- No table is joined under the key of a scalar. -/
theorem not_joined (h : t.PlannedFor s cx children type config xs) {y : Selection} (asked : y ∈ xs)
    {field : Field Ctx} (found : type.field? y.name = some field) (scalar : field.type = .scalar) :
    y.responseKey ∉ Node.joinedNames children := by
  intro joined
  obtain ⟨n, member, named⟩ := List.mem_filterMap.mp joined
  obtain ⟨u, below, rfl, key⟩ : ∃ u below, n = .table u below ∧ u.fieldName = y.responseKey := by
    cases n with
    | table u below =>
      refine ⟨u, below, rfl, ?_⟩
      have single : (if u.isBatch then none else some u.fieldName) = some y.responseKey := named
      split at single
      · cases single
      · exact Option.some.inj single
    | column _ | composite _ | noop _ _ => cases named
  obtain ⟨z, other, same, field', _, _, _, _, found', leads, _⟩ := h.below member
  obtain rfl := List.inj_on_of_nodup_map h.distinct.nodup asked other (key.symm.trans same)
  cases found.symm.trans found'
  cases scalar.symm.trans leads

end Table.PlannedFor

section Plan

variable {minify : Bool} {x : Selection} {root : Node}

/-- What a request asks of a table's objects is what the table is planned for. -/
theorem Requested.plannedFor (distinct : Selection.DistinctKeys s s.queryType [x])
    (planned : s.plan minify cx x = .ok root) {t : Table} {children : List Node}
    {type : ObjectType Ctx} {xs : List Selection} (h : Requested s x root t children type xs) :
    ∃ config, t.PlannedFor s cx children type config xs := by
  induction h with
  | root same found leads known =>
    obtain ⟨_, ran⟩ := plan_ok planned
    rcases planRoot_steps ran with leaf | ⟨field', _, _, _, config, _, _, _, _, _, found', leads',
      known', planned, rfl⟩
    · rw [same] at leaf
      cases leaf
    · cases same
      cases found.symm.trans found'
      cases leads.symm.trans leads'
      cases known.symm.trans known'
      exact ⟨config, planned.plannedFor (distinct.onObjects found leads known)⟩
  | under above asked member key found leads known inductionHypothesis =>
    obtain ⟨config, host⟩ := inductionHypothesis
    obtain ⟨z, other, same, _, _, _, _, childConfig, found', leads', known', planned⟩ :=
      host.below member
    obtain rfl := List.inj_on_of_nodup_map host.distinct.nodup asked other (key.symm.trans same)
    cases found.symm.trans found'
    cases leads.symm.trans leads'
    cases known.symm.trans known'
    exact ⟨childConfig, planned⟩

/-- Every table of a plan is asked for. -/
theorem plan_requested (distinct : Selection.DistinctKeys s s.queryType [x])
    (planned : s.plan minify cx x = .ok root) :
    root.Everywhere (fun t children => ∃ type xs, Requested s x root t children type xs) := by
  apply Node.everywhere_of_step
  · rintro t children u below ⟨type, xs, above⟩ member
    obtain ⟨config, host⟩ := above.plannedFor distinct planned
    obtain ⟨y, asked, key, _, _, _, _, _, found, leads, known, _⟩ := host.below member
    exact ⟨_, _, .under above asked member key found leads known⟩
  · rintro t children rfl
    obtain ⟨_, ran⟩ := plan_ok planned
    rcases planRoot_steps ran with leaf | ⟨_, _, _, _, _, _, _, _, _, _, found, leads, known, _, same⟩
    · cases leaf
    · exact ⟨_, _, .root rfl found leads known⟩

end Plan

end Plan

end TreeQuery
