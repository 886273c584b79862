import TreeQuery.Proofs.Execution.Filled
import TreeQuery.Proofs.Plan.Requested

/-!
No requested field is missing from a response. Wherever a run puts the objects of a table, each of
them has an entry for every scalar that was selected on it, and for every relation to a type with a
table, be it joined, reached through a junction or fetched in a batch.
-/

namespace TreeQuery

open Plan (Node Table totalColumn)

section Request

variable {Ctx : Type}

/-- A selection of a field that is part of the response: not of introspection, nor there only for
what it depends on. -/
structure Selection.Selects (type : ObjectType Ctx) (y : Selection) (field : Field Ctx) : Prop where
  found : type.field? y.name = some field
  kept : field.ignored = false
  plain : Plan.isIntrospection y.name = false

/-- A field is a relation to a type that has a table. -/
def Field.LeadsTo (s : Schema Ctx) (field : Field Ctx) (childType : ObjectType Ctx) : Prop :=
  ∃ typeName many, field.type = .object typeName many ∧ s.type? typeName = some childType ∧
    childType.table.isSome

namespace Selection

/-- On each object that some selections lead to, no key is the given one. -/
inductive KeysAvoid (s : Schema Ctx) (name : String) : ObjectType Ctx → List Selection → Prop
  | intro {type : ObjectType Ctx} {xs : List Selection}
      (keys : ∀ x ∈ xs, x.responseKey ≠ name)
      (below : ∀ x ∈ xs, ∀ field childType, type.field? x.name = some field →
        field.LeadsTo s childType → KeysAvoid s name childType (x.onObjects field.paginate)) :
      KeysAvoid s name type xs

/-- An object has an entry for everything that is selected on it, and so have the objects to which
the relations among it lead, inside whatever lists and connections. -/
inductive AnsweredBy (s : Schema Ctx) : ObjectType Ctx → List Selection → Fields Value → Prop
  | intro {type : ObjectType Ctx} {xs : List Selection} {o : Fields Value}
      (scalar : ∀ y ∈ xs, ∀ field, y.Selects type field → field.type = .scalar →
        y.responseKey ∈ Fields.names o)
      (related : ∀ y ∈ xs, ∀ field childType, y.Selects type field → field.LeadsTo s childType →
        y.responseKey ∈ Fields.names o)
      (inside : ∀ y ∈ xs, ∀ field childType, y.Selects type field → field.LeadsTo s childType →
        ∀ w, Fields.get? o y.responseKey = some w →
          ∀ p ∈ w.objects, AnsweredBy s childType (y.onObjects field.paginate) p) :
      AnsweredBy s type xs o

end Selection

namespace Plan

variable {s : Schema Ctx} {cx : Ctx} {type childType : ObjectType Ctx} {config : TableConfig Ctx}
variable {t : Table} {xs : List Selection} {y : Selection} {field : Field Ctx}

/-- A relation to a type with a table is planned as a table. -/
theorem planField_related {nodes : List Node} {ns ns' : Namespace} (selects : y.Selects type field)
    (leads : field.LeadsTo s childType)
    (ran : (planField s cx type config t y).run ns = .ok (nodes, ns')) :
    ∃ u below, nodes = [.table u below] := by
  obtain ⟨typeName, many, leads, known, configured⟩ := leads
  obtain ⟨name, label, args, selections⟩ := y
  rw [planField] at ran
  split at ran
  · rename_i introspection
    cases selects.plain.symm.trans introspection
  obtain ⟨field', _, hf, ran⟩ := run_bind_ok.mp ran
  obtain ⟨found, rfl⟩ := run_lift_ok.mp hf
  cases selects.found.symm.trans (findField_ok found)
  split at ran
  · rename_i ignored
    cases selects.kept.symm.trans ignored
  obtain ⟨reached, _, ht, ran⟩ := run_bind_ok.mp ran
  obtain ⟨ht, rfl⟩ := run_lift_ok.mp ht
  rw [target, leads] at ht
  simp only [known] at ht
  cases ht
  simp only at ran
  split at ran
  · rename_i unconfigured
    rw [unconfigured] at configured
    cases configured
  obtain ⟨_, _, _, ran⟩ := run_bind_ok.mp ran
  obtain ⟨_, _, _, ran⟩ := run_bind_ok.mp ran
  obtain ⟨⟨child, _⟩, _, _, ran⟩ := run_bind_ok.mp ran
  obtain ⟨head, _, _, ran⟩ := run_bind_ok.mp ran
  obtain ⟨below, _, _, ran⟩ := run_bind_ok.mp ran
  obtain ⟨rfl, _⟩ := run_pure_ok.mp ran
  exact ⟨child, head ++ below, rfl⟩

theorem planFields_related (asked : y ∈ xs) {nodes : List Node} {ns ns' : Namespace}
    (selects : y.Selects type field) (leads : field.LeadsTo s childType)
    (ran : (planFields s cx type config t xs).run ns = .ok (nodes, ns')) :
    ∃ u below, .table u below ∈ nodes ∧ u.fieldName = y.responseKey := by
  induction xs generalizing ns nodes with
  | nil => cases asked
  | cons x xs inductionHypothesis =>
    obtain ⟨here, _, first, ran⟩ := run_bind_ok.mp ran
    obtain ⟨rest, _, later, ran⟩ := run_bind_ok.mp ran
    obtain ⟨rfl, rfl⟩ := run_pure_ok.mp ran
    cases asked with
    | head =>
      obtain ⟨u, below, rfl⟩ := planField_related selects leads first
      rcases planField_steps first with
        leaf | ⟨_, _, _, _, _, _, _, _, _, _, _, _, _, _, planned, same⟩
      · cases leaf.leaves _ (List.mem_singleton_self _)
      · cases same
        exact ⟨u, _, List.mem_cons_self .., planned.reached.fieldName⟩
    | tail _ asked =>
      obtain ⟨u, below, member, key⟩ := inductionHypothesis asked later
      exact ⟨u, below, List.mem_append_right _ member, key⟩

/-- The relations that are asked for have their tables among the nodes. -/
theorem Table.PlannedFor.related {children : List Node}
    (h : t.PlannedFor s cx children type config xs) (asked : y ∈ xs)
    (selects : y.Selects type field) (leads : field.LeadsTo s childType) :
    ∃ u below childConfig, .table u below ∈ children ∧ u.fieldName = y.responseKey ∧
      u.PlannedFor s cx below childType childConfig (y.onObjects field.paginate) := by
  obtain ⟨head, below, ns, ns', rfl, _, ran⟩ := h.planned
  obtain ⟨u, nodes, planned, key⟩ := planFields_related asked selects leads ran
  have member : .table u nodes ∈ head ++ below := List.mem_append_right _ planned
  obtain ⟨z, other, same, field', _, _, _, childConfig, found, leads', known, planned⟩ :=
    h.below member
  obtain rfl := List.inj_on_of_nodup_map h.distinct.nodup asked other (key.symm.trans same)
  cases selects.found.symm.trans found
  obtain ⟨_, _, leads, known', _⟩ := leads
  cases leads.symm.trans leads'
  cases known.symm.trans known'
  exact ⟨u, nodes, childConfig, member, key, planned⟩

/-- Objects that are filled with what was planned for a request answer the request. -/
theorem Table.PlannedFor.answered {children : List Node}
    (h : t.PlannedFor s cx children type config xs)
    (keys : Selection.KeysAvoid s totalColumn type xs) {o : Fields Value}
    (filled : Filled true children o) : Selection.AnsweredBy s type xs o := by
  induction keys generalizing t children config o with
  | @intro type xs keys below inductionHypothesis =>
    refine .intro (fun y asked field selects scalar => ?_)
      (fun y asked field childType selects leads => ?_)
      (fun y asked field childType selects leads w read p member => ?_)
    · obtain ⟨c, member, key, _⟩ := h.scalar asked selects.found scalar selects.kept selects.plain
      exact filled.present member (by rw [Node.entryName?, key]) (keys y asked)
    · obtain ⟨u, nodes, _, member, key, _⟩ := h.related asked selects leads
      refine filled.present member ?_ (keys y asked)
      rw [Node.entryName?, Table.isHeld, Bool.true_or, if_pos rfl, key]
    · obtain ⟨u, nodes, _, among, key, planned⟩ := h.related asked selects leads
      rw [← key] at read
      exact inductionHypothesis y asked field childType selects.found leads planned
        (filled.inside among rfl read p member)

end Plan

variable {σ : Type} {schema : Schema Ctx} {minify : Bool} {cx : Ctx} {x : Selection}

theorem execute_ok {fl : Sql.Flavor} {d : Driver σ} {v : Value} {s s' : Session σ}
    (ran : execute schema fl minify cx d x s = (.ok v, s')) :
    ∃ root, schema.plan minify cx x = .ok root ∧ Shape.checkPlan root = .ok () ∧
      Execution.run fl d root s = (.ok v, s') := by
  have whole : Execution.ofSelection schema fl minify cx d x s = (.ok v, s') := by
    rw [execute] at ran
    split at ran <;> cases ran
    assumption
  obtain ⟨root, _, first, whole⟩ := Run.bind_ok.mp whole
  obtain ⟨planned, rfl⟩ := Run.ofExcept_ok.mp first
  obtain ⟨_, _, second, whole⟩ := Run.bind_ok.mp whole
  obtain ⟨checked, rfl⟩ := Run.ofExcept_ok.mp second
  exact ⟨root, planned, checked, whole⟩

/-- Whatever the database answers, a run that succeeds misses nothing that was selected. -/
theorem execute_answered (distinct : Selection.DistinctKeys schema schema.queryType [x])
    (keys : Selection.KeysAvoid schema totalColumn schema.queryType [x]) {field : Field Ctx}
    {type : ObjectType Ctx} (found : schema.queryType.field? x.name = some field)
    (leads : field.LeadsTo schema type) (fl : Sql.Flavor) (d : Driver σ) {v : Value}
    {s s' : Session σ} (ran : execute schema fl minify cx d x s = (.ok v, s')) :
    ∀ o ∈ v.objects, Selection.AnsweredBy schema type (x.onObjects field.paginate) o := by
  obtain ⟨root, planned, _, ran⟩ := execute_ok ran
  cases root with
  | table t children =>
    obtain ⟨typeName, many, object, known, tabled⟩ := leads
    have requested : Plan.Requested schema x (.table t children) t children type
        (x.onObjects field.paginate) := .root rfl found object known
    obtain ⟨config, host⟩ := requested.plannedFor distinct planned
    have filled := Execution.run_filled (Plan.plan_tablesApart distinct planned) ran
    cases keys with
    | intro _ below =>
      have avoided := below x (List.mem_singleton_self x) field type found
        ⟨typeName, many, object, known, tabled⟩
      exact fun o member => host.answered avoided (filled o member)
  | column _ | composite _ | noop _ _ =>
    obtain ⟨rfl, _⟩ := Run.pure_ok.mp ran
    exact nofun

end Request

section PagedShop

open Selection (KeysAvoid)

theorem keysAvoid_firstProduct :
    KeysAvoid pagedShop totalColumn pagedShop.queryType [firstProduct] := by
  refine .intro (by decide) (fun x hx field type found leads => ?_)
  obtain rfl := List.mem_singleton.mp hx
  obtain ⟨typeName, many, object, known, _⟩ := leads
  cases found
  cases object
  cases known
  refine .intro (by decide) (fun x hx field type found leads => ?_)
  obtain ⟨typeName, many, object, known, _⟩ := leads
  rcases List.mem_cons.mp hx with rfl | hx
  · cases found
    cases object
  obtain rfl := List.mem_singleton.mp hx
  cases found
  cases object
  cases known
  refine .intro (by decide) (fun x hx field type found leads => ?_)
  obtain ⟨typeName, many, object, known, _⟩ := leads
  obtain rfl := List.mem_singleton.mp hx
  cases found
  cases object

/-- The first product has its name and, from another statement, its variants. -/
theorem execute_answered_paged : ∃ v s' type, pagedShop.type? "Product" = some type ∧
    execute pagedShop .sqlite false () pagedDriver firstProduct ⟨0, false, []⟩ = (.ok v, s') ∧
    v.objects.map Fields.names = [["id", "name", "sku", "variants"]] ∧
    ∀ o ∈ v.objects, Selection.AnsweredBy pagedShop type (firstProduct.onObjects true) o := by
  obtain ⟨field, found, paged, leads⟩ : ∃ field,
      pagedShop.queryType.field? "products" = some field ∧ field.paginate = true ∧
        field.type = .object "Product" true := ⟨_, rfl, rfl, rfl⟩
  obtain ⟨type, known, tabled⟩ : ∃ type, pagedShop.type? "Product" = some type ∧
      type.table.isSome := ⟨_, rfl, rfl⟩
  obtain ⟨v, s', ran, names⟩ : ∃ v s',
      execute pagedShop .sqlite false () pagedDriver firstProduct ⟨0, false, []⟩ = (.ok v, s') ∧
      v.objects.map Fields.names = [["id", "name", "sku", "variants"]] :=
    ⟨_, _, Prod.ext rfl rfl, rfl⟩
  have answered := execute_answered distinctKeys_firstProduct keysAvoid_firstProduct found
    ⟨"Product", true, leads, known, tabled⟩ .sqlite pagedDriver ran
  rw [paged] at answered
  exact ⟨v, s', type, known, ran, names, answered⟩

end PagedShop

end TreeQuery
