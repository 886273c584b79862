import TreeQuery.Proofs.Execution.Refusals
import TreeQuery.Proofs.Shape.Collected
import TreeQuery.Proofs.Sql.Internal

/-!
Errors that a schema has ruled out once it passed validation. A request can be wrong, its pages can
be refused and the database can fail, but nothing that planning, shaping and execution take for
granted of each other is ever missing.
-/

namespace TreeQuery

open Plan (Node Table)

def Shape.ShapeError.Internal : Shape.ShapeError → Prop
  | .noIdentity _ => True
  | .rootJoin _ => False

def ResultError.Internal : ResultError → Prop
  | .notShaped _ => True
  | _ => False

def ConnectionError.Internal : ConnectionError → Prop
  | .paging e => e.Internal
  | .result e => e.Internal

/-- Whatever the database fails with counts as its own. -/
def RunError.Internal : RunError → Prop
  | .plan e => e.Internal
  | .shape e => e.Internal
  | .sql e => e.Internal
  | .result e => e.Internal
  | .connection e => e.Internal
  | .notABatch _ => True
  | .schema _ | .session _ => False

namespace Hydration

theorem cell_avoids (r : Row) (label : String) : Avoids ResultError.Internal (cell r label) := by
  rw [cell]
  split
  · exact .ok _
  · exact .error id

theorem groupRows_avoids (labels : List String) (rows : List Row) :
    Avoids ResultError.Internal (groupRows labels rows) := by
  have identified (r : Row) : Avoids ResultError.Internal (identity labels r) :=
    .mapM (fun a _ => (cell_avoids r a).map _)
  exact (Avoids.mapM (fun r _ => (identified r).map _)).bind (fun _ _ => .ok _)

mutual

theorem objects_avoids : (s : Shape) → (rows : List Row) →
    Avoids ResultError.Internal (objects s rows)
  | .mk fields, rows => by
    rw [objects]
    apply (groupRows_avoids _ rows).bind
    intro groups _
    exact .mapM (fun g _ => (objectFields_avoids fields g.2).bind (fun _ _ => .ok _))

theorem objectFields_avoids : (fields : List (String × ShapeField)) → (rows : List Row) →
    Avoids ResultError.Internal (objectFields fields rows)
  | [], _ => .ok _
  | (_, f) :: r, rows =>
    (fieldValue_avoids f rows).bind (fun _ _ => (objectFields_avoids r rows).bind (fun _ _ => .ok _))

theorem fieldValue_avoids : (f : ShapeField) → (rows : List Row) →
    Avoids ResultError.Internal (fieldValue f rows)
  | .column _ _, [] => .ok _
  | .column label _, first :: _ => cell_avoids first label
  | .nested shape _, rows => (objects_avoids shape rows).bind (fun _ _ => .ok _)

end

end Hydration

namespace Connection

theorem ofItems_avoids_internal (t : Table) (items : List Value) :
    Avoids ConnectionError.Internal (ofItems t items) := by
  have paging : Avoids ConnectionError.Internal (t.paging.mapError .paging) := by
    apply Avoids.mapError_of
    exact t.paging_avoids
  apply paging.bind
  intro p _
  cases p <;> exact .ok _

mutual

theorem convert_avoids_internal : (n : Node) → (v : Value) →
    Avoids ConnectionError.Internal (convert n v)
  | .table t children, v => by
    unfold convert
    split
    · exact .ok _
    · refine (Avoids.mapM (fun v _ => convertChildren_avoids_internal children v)).bind
        (fun items _ => ?_)
      split
      · exact ofItems_avoids_internal t items
      · exact .ok _
    · exact convertChildren_avoids_internal children _
    · split
      · exact .error id
      · exact .ok _
  | .column _, _ | .composite _, _ | .noop _ _, _ => .ok _

theorem convertChildren_avoids_internal : (nodes : List Node) → (v : Value) →
    Avoids ConnectionError.Internal (convertChildren nodes v)
  | [], _ => .ok _
  | .table t children :: r, v => by
    unfold convertChildren
    split
    · exact convertChildren_avoids_internal r v
    split
    · split
      · exact (convert_avoids_internal (.table t children) _).bind
          (fun _ _ => convertChildren_avoids_internal r _)
      · exact convertChildren_avoids_internal r _
    · exact .ok _
  | .column _ :: r, v | .composite _ :: r, v | .noop _ _ :: r, v =>
    convertChildren_avoids_internal r v

end

end Connection

/-- A plan can be shaped, or has a join at its root. -/
theorem Shape.checkPlan_avoids {root : Node} (headed : root.Everywhere Table.Headed) :
    Avoids ShapeError.Internal (checkPlan root) := by
  by_cases unjoined : ∀ t, root.table? = some t → t.join = none
  · obtain ⟨shapes, collected, _⟩ := ofPlan_of_headed headed unjoined
    rw [checkPlan_eq, collected]
    exact .ok _
  · push Not at unjoined
    obtain ⟨t, own, joined⟩ := unjoined
    cases root with
    | table u children =>
      cases own
      rw [checkPlan, if_pos (Option.isSome_iff_ne_none.mpr joined)]
      exact .error id
    | column _ | composite _ | noop _ _ => cases own

theorem Session.query_avoids {σ : Type} {bad : RunError → Prop} (foreign : ∀ e, ¬bad (.session e))
    (d : Driver σ) (q : Sql.Query) : Run.Sound (fun _ => True) bad (query d .session q) := by
  have asked : Run.Sound (fun _ => True) bad (ask d q) := ⟨fun _ _ => trivial, nofun⟩
  apply (checkCancelled_sound (foreign .cancelled)).bind
  intro _
  exact asked.bind (receive_avoids foreign)

namespace Execution

variable {σ : Type} {fl : Sql.Flavor} {d : Driver σ} {t : Table} {children : List Node}

/-- The run does not end with an internal error, whatever the database does. -/
abbrev Sure {α : Type} (x : Task σ α) : Prop := Run.Sound (fun _ => True) RunError.Internal x

section Fetch

variable {shape : Shape} (nests : (Node.table t children).Everywhere Table.NestsRelated)
variable (shaped : Shape.ofNode "" (.table t children) = .ok shape)

include nests shaped

theorem fetch_avoids {scope : Option (List Value)} (keyed : scope ≠ some []) :
    Sure (fetch fl d (.table t children) scope) := by
  refine Run.Sound.ofExcept_bind (Sql.compile_avoids fl nests keyed) (fun q _ => ?_)
  rw [shapeOf_ok shaped]
  refine Run.Sound.bind (.pure shape) (fun shape => ?_)
  exact (Session.query_avoids (fun _ => id) d q).bind
    (fun rows => .ofExcept (Hydration.objects_avoids shape rows))

theorem fetchGroups_avoids (batch : t.isBatch) {scope : List Key} (keyed : scope ≠ []) :
    Sure (fetchGroups fl d t children scope) := by
  have keys : some (scope.map Key.toValue) ≠ some [] := by simpa using keyed
  apply (fetch_avoids nests shaped keys).bind
  intro items
  have required : Avoids RunError.Internal (requireKeys t) := by
    obtain ⟨keys, matched⟩ := Option.isSome_iff_exists.mp (t.isBatch_eq ▸ batch)
    rw [requireKeys, matched]
    exact .ok _
  apply Run.Sound.bind (.ofExcept required)
  intro keys
  have converted : Avoids (fun e => (RunError.connection e).Internal)
      (items.mapM (Connection.convertChildren children)) :=
    .mapM (fun v _ => Connection.convertChildren_avoids_internal children v)
  apply Run.Sound.bind (.ofExcept converted)
  intro items
  have paged : Avoids (fun e => (RunError.connection e).Internal)
      (groupValues t (Groups.ofItems keys.thisKey.fieldName items)) :=
    groupValues_avoids (Connection.ofItems_avoids_internal t) _
  exact .ofExcept paged

end Fetch

theorem run_avoids {root : Node} (nests : root.Everywhere Table.NestsRelated)
    (checked : Shape.checkPlan root = .ok ()) : Sure (run fl d root) := by
  have fetches (b : Table × List Node) (starts : b ∈ root.statementRoots) :
      Fetches fl d (fun _ => True) RunError.Internal b.1 b.2 := by
    obtain ⟨shape, shaped⟩ := Shape.shaped_of_checkPlan checked starts
    exact fun batch scope keyed =>
      fetchGroups_avoids (Node.everywhere_statementRoot nests starts) shaped batch keyed
  cases root with
  | table t children =>
    obtain ⟨shape, shaped⟩ := Shape.shaped_of_checkPlan checked (List.mem_cons_self ..)
    apply (fetch_avoids nests shaped (by simp)).bind
    intro items
    have converted (value : Value) : Avoids (fun e => (RunError.connection e).Internal)
        (Connection.convert (.table t children) value) :=
      Connection.convert_avoids_internal (.table t children) value
    exact Run.Sound.bind (.ofExcept (converted _)) (completeRoot_sound fetches)
  | column _ | composite _ | noop _ _ => exact .pure _

end Execution

section Request

variable {Ctx : Type} {schema : Schema Ctx}

/-- In a schema that passed validation planning finds every type, table and key that it needs. A
plan whose root declares no join has a shape for just the statements that its execution issues. And
no run ends with an internal error. -/
theorem build_rules_out_internal {types : List (ObjectType Ctx)} {queryType : String}
    (built : Schema.build types queryType = .ok schema) (fl : Sql.Flavor) (minify : Bool) (cx : Ctx)
    (x : Selection) :
    (∀ e, schema.plan minify cx x = .error e → ¬e.Internal) ∧
    (∀ root, schema.plan minify cx x = .ok root → (∀ t, root.table? = some t → t.join = none) →
      ∃ shapes, Shape.ofPlan root = .ok shapes ∧ Shape.Covers shapes root ∧
        ∀ (σ : Type) (d : Driver σ) (s : Session σ), ∃ qs,
          (execute schema fl minify cx d x s).2.issued = s.issued ++ qs ∧
          ∀ q ∈ qs, ∃ p ∈ shapes, ∃ scope, Sql.compile fl (.table p.1.1 p.1.2) scope = .ok q) ∧
    ∀ (σ : Type) (d : Driver σ) (s : Session σ) (e : RunError) (s' : Session σ),
      Execution.ofSelection schema fl minify cx d x s = (.error (.failed e), s') →
      ¬e.Internal := by
  have planned := Plan.plan_avoids_internal (Schema.closed_of_build built) minify cx x
  refine ⟨planned, ?_, ?_⟩
  · intro root ok unjoined
    obtain ⟨shapes, collected, covers⟩ := Shape.ofPlan_of_headed (Plan.plan_headed ok) unjoined
    refine ⟨shapes, collected, covers, fun σ d s => ?_⟩
    obtain ⟨qs, issued, stated⟩ := execute_issues ok fl d s
    refine ⟨qs, issued, fun q member => ?_⟩
    obtain ⟨b, starts, scope, compiled⟩ := stated q member
    rw [← covers.roots] at starts
    obtain ⟨p, among, rfl⟩ := List.mem_map.mp starts
    exact ⟨p, among, scope, compiled⟩
  · intro σ d s e s' failed
    have sure : Execution.Sure (Execution.ofSelection schema fl minify cx d x) := by
      refine Run.Sound.ofExcept_bind planned (fun root ok => ?_)
      refine Run.Sound.ofExcept_bind (Shape.checkPlan_avoids (Plan.plan_headed ok))
        (fun _ checked => ?_)
      exact Execution.run_avoids (Plan.plan_nestsRelated ok) checked
    exact sure.failed s e s' failed trivial

theorem build_rules_out_internal_shop :
    (∃ shapes, Shape.ofPlan (.table productsTable (productNodes "name")) = .ok shapes ∧
      shapes.map (fun p => p.1.1.fieldName) = ["products", "variants"]) ∧
    ∀ s e s', Execution.ofSelection shop .sqlite false () shopDriver (productsRequest none) s =
      (.error (.failed e), s') → ¬e.Internal := by
  obtain ⟨_, shaped, sure⟩ :=
    build_rules_out_internal build_shop .sqlite false () (productsRequest none)
  refine ⟨?_, sure Unit shopDriver⟩
  obtain ⟨shapes, collected, covers, _⟩ := shaped _ (plan_productsRequest none)
    (by rintro _ ⟨⟩; rfl)
  refine ⟨shapes, collected, ?_⟩
  have names : shapes.map (fun p => p.1.1.fieldName) =
      (shapes.map Prod.fst).map (fun b => b.1.fieldName) := by simp
  rw [names, covers.roots]
  rfl

end Request

end TreeQuery
