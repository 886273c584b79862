import TreeQuery.Plan.OfSelection
import TreeQuery.Proofs.Success

/-!
What planning yields when it succeeds. Each selection adds leaves, or a table with the leaves that
the table itself needs and then the plans of the selections on its objects.
-/

namespace TreeQuery

/-- The selections under `edges { node }`. -/
def Selection.nodeSelections (xs : List Selection) : List Selection :=
  (xs.filter (fun x => x.name = "edges")).flatMap (fun edges =>
    (edges.selections.filter (fun x => x.name = "node")).flatMap Selection.selections)

/-- The selections made on the objects that a field leads to. Those on the nodes of a page count
together, however many `edges { node }` they are spread over. -/
def Selection.onObjects (paginate : Bool) (x : Selection) : List Selection :=
  if paginate then nodeSelections x.selections else x.selections

namespace Plan

variable {Ctx : Type} {s : Schema Ctx} {cx : Ctx}

theorem planFields_append (type : ObjectType Ctx) (config : TableConfig Ctx) (t : Table)
    (xs ys : List Selection) : planFields s cx type config t (xs ++ ys) = (do
      let here ← planFields s cx type config t xs
      return here ++ (← planFields s cx type config t ys)) := by
  induction xs with
  | nil => simp [planFields]
  | cons x xs ih =>
    simp only [List.cons_append, planFields, ih, bind_assoc, pure_bind, List.append_assoc]

theorem planNodes_eq (type : ObjectType Ctx) (config : TableConfig Ctx) (t : Table)
    (xs : List Selection) : planNodes s cx type config t xs =
      planFields s cx type config t
        ((xs.filter (fun x => x.name = "node")).flatMap Selection.selections) := by
  induction xs with
  | nil => simp [planNodes, planFields]
  | cons x xs ih =>
    obtain ⟨name, label, args, selections⟩ := x
    by_cases h : name = "node"
    · simp [planNodes, planFields_append, ih, h]
    · simp [planNodes, ih, h]

theorem planEdges_eq (type : ObjectType Ctx) (config : TableConfig Ctx) (t : Table)
    (xs : List Selection) : planEdges s cx type config t xs =
      planFields s cx type config t (Selection.nodeSelections xs) := by
  rw [Selection.nodeSelections]
  induction xs with
  | nil => simp [planEdges, planFields]
  | cons x xs ih =>
    obtain ⟨name, label, args, selections⟩ := x
    by_cases h : name = "edges"
    · simp [planEdges, planFields_append, planNodes_eq, ih, h]
    · simp [planEdges, ih, h]

theorem planObjects_eq (type : ObjectType Ctx) (config : TableConfig Ctx) (t : Table)
    (paginate : Bool) (x : Selection) : planFields s cx type config t (x.onObjects paginate) =
      if paginate then planEdges s cx type config t x.selections
      else planFields s cx type config t x.selections := by
  rw [planEdges_eq]
  cases paginate <;> rfl

/-- A table is reached the way its field declares. -/
structure Table.OfField (field : Field Ctx) (many : Bool) (responseKey : String) (t : Table) :
    Prop where
  fieldName : t.fieldName = responseKey
  join : t.join.isSome = field.join.isSome
  batch : t.batch.isSome = field.batch.isSome
  junction : t.junction.isSome = field.junction.isSome
  paginate : t.paginate = field.paginate
  many : t.many = many

section Head

variable {ns ns' : Namespace}

theorem planBatch?_ok {config : Option BatchConfig} {b : Option Batch}
    (h : (planBatch? config).run ns = .ok (b, ns')) : b.isSome = config.isSome := by
  cases config with
  | none =>
    obtain ⟨rfl, _⟩ := run_pure_ok.mp h
    rfl
  | some c =>
    obtain ⟨keys, _, _, h⟩ := run_bind_ok.mp h
    obtain ⟨rfl, _⟩ := run_pure_ok.mp h
    rfl

theorem planJunction?_ok {args : Arguments} {config : Option (JunctionConfig Ctx)}
    {j : Option Junction} (h : (planJunction? args cx config).run ns = .ok (j, ns')) :
    j.isSome = config.isSome := by
  cases config with
  | none =>
    obtain ⟨rfl, _⟩ := run_pure_ok.mp h
    rfl
  | some c =>
    obtain ⟨label, _, _, h⟩ := run_bind_ok.mp h
    obtain ⟨batch, _, _, h⟩ := run_bind_ok.mp h
    obtain ⟨rfl, _⟩ := run_pure_ok.mp h
    rfl

theorem planTable_ok {field : Field Ctx} {config : TableConfig Ctx} {many : Bool}
    {key : String} {args : Arguments} {l : Location} {t : Table}
    (h : (planTable cx field config many key args l).run ns = .ok (t, ns')) :
    t.OfField field many key := by
  obtain ⟨label, _, _, h⟩ := run_bind_ok.mp h
  obtain ⟨batch, _, hb, h⟩ := run_bind_ok.mp h
  obtain ⟨junction, _, hj, h⟩ := run_bind_ok.mp h
  obtain ⟨rfl, _⟩ := run_pure_ok.mp h
  exact ⟨rfl, Option.isSome_map, planBatch?_ok hb, planJunction?_ok hj, rfl, rfl⟩

/-- Nodes that nothing stands below. -/
def Leaves (nodes : List Node) : Prop := ∀ n ∈ nodes, n.table? = none

theorem leaves_nil : Leaves [] := by simp [Leaves]

theorem leaves_cons {n : Node} {nodes : List Node} (h : n.table? = none) (hr : Leaves nodes) :
    Leaves (n :: nodes) := List.forall_mem_cons.mpr ⟨h, hr⟩

theorem leaves_append {a b : List Node} (ha : Leaves a) (hb : Leaves b) : Leaves (a ++ b) :=
  List.forall_mem_append.mpr ⟨ha, hb⟩

theorem plainColumns_leaves {config : TableConfig Ctx} {t : Table} {l : Location}
    {columns : List String} {nodes : List Node}
    (h : (plainColumns cx config t l columns).run ns = .ok (nodes, ns')) : Leaves nodes := by
  induction columns generalizing ns ns' nodes with
  | nil =>
    obtain ⟨rfl, _⟩ := run_pure_ok.mp h
    exact leaves_nil
  | cons c columns ih =>
    obtain ⟨column, _, _, h⟩ := run_bind_ok.mp h
    obtain ⟨rest, _, hr, h⟩ := run_bind_ok.mp h
    obtain ⟨rfl, _⟩ := run_pure_ok.mp h
    exact leaves_cons rfl (ih hr)

theorem identityNode_leaf {typeName : String} {config : TableConfig Ctx} {t : Table} {n : Node}
    (h : (identityNode cx typeName config t).run ns = .ok (n, ns')) : n.table? = none := by
  unfold identityNode at h
  split at h
  · exact (run_throw_ok.mp h).elim
  · obtain ⟨column, _, _, h⟩ := run_bind_ok.mp h
    obtain ⟨rfl, _⟩ := run_pure_ok.mp h
    rfl
  · obtain ⟨label, _, _, h⟩ := run_bind_ok.mp h
    obtain ⟨rfl, _⟩ := run_pure_ok.mp h
    rfl

theorem keysetNodes_leaves {t : Table} {label : String} {key : SortKey} {nodes : List Node}
    (h : (keysetNodes t label key).run ns = .ok (nodes, ns')) : Leaves nodes := by
  induction key generalizing ns ns' nodes with
  | nil =>
    obtain ⟨rfl, _⟩ := run_pure_ok.mp h
    exact leaves_nil
  | cons c key ih =>
    obtain ⟨label, _, _, h⟩ := run_bind_ok.mp h
    obtain ⟨rest, _, hr, h⟩ := run_bind_ok.mp h
    obtain ⟨rfl, _⟩ := run_pure_ok.mp h
    exact leaves_cons rfl (ih hr)

theorem pagingNodes_leaves {t : Table} {nodes : List Node}
    (h : (pagingNodes t).run ns = .ok (nodes, ns')) : Leaves nodes := by
  unfold pagingNodes at h
  split at h
  · obtain ⟨rfl, _⟩ := run_pure_ok.mp h
    exact leaves_nil
  split at h
  · exact keysetNodes_leaves h
  · obtain ⟨label, _, _, h⟩ := run_bind_ok.mp h
    obtain ⟨rfl, _⟩ := run_pure_ok.mp h
    exact leaves_cons rfl leaves_nil
  · obtain ⟨rfl, _⟩ := run_pure_ok.mp h
    exact leaves_nil

theorem batchNodes_leaves (t : Table) : Leaves (batchNodes t) := by
  unfold batchNodes
  split
  · exact leaves_nil
  · exact leaves_cons rfl leaves_nil

theorem headNodes_leaves {typeName : String} {config : TableConfig Ctx} {t : Table}
    {nodes : List Node} (h : (headNodes cx typeName config t).run ns = .ok (nodes, ns')) :
    Leaves nodes := by
  obtain ⟨identity, _, hi, h⟩ := run_bind_ok.mp h
  obtain ⟨always, _, ha, h⟩ := run_bind_ok.mp h
  obtain ⟨paging, _, hp, h⟩ := run_bind_ok.mp h
  obtain ⟨rfl, _⟩ := run_pure_ok.mp h
  exact leaves_append (leaves_append (leaves_cons (identityNode_leaf hi) (plainColumns_leaves ha))
    (pagingNodes_leaves hp)) (batchNodes_leaves t)

theorem scalarNode_leaf {config : TableConfig Ctx} {t : Table} {field : Field Ctx} {key : String}
    {args : Arguments} {l : Location} {n : Node}
    (h : (scalarNode cx config t field key args l).run ns = .ok (n, ns')) : n.table? = none := by
  unfold scalarNode at h
  split at h
  · obtain ⟨label, _, _, h⟩ := run_bind_ok.mp h
    obtain ⟨rfl, _⟩ := run_pure_ok.mp h
    rfl
  · obtain ⟨column, _, _, h⟩ := run_bind_ok.mp h
    obtain ⟨rfl, _⟩ := run_pure_ok.mp h
    rfl

end Head

/-- The nodes that some selections on an object of a type are planned as. -/
inductive Planned (s : Schema Ctx) : ObjectType Ctx → List Selection → List Node → Prop
  | nil {type : ObjectType Ctx} : Planned s type [] []
  | leaves {type : ObjectType Ctx} {x : Selection} {xs : List Selection} {here rest : List Node}
      (leaves : Leaves here) (later : Planned s type xs rest) :
      Planned s type (x :: xs) (here ++ rest)
  | table {type childType : ObjectType Ctx} {x : Selection} {xs : List Selection}
      {field : Field Ctx} {typeName : String} {many : Bool} {child : Table}
      {head below rest : List Node} (found : type.field? x.name = some field)
      (leads : field.type = .object typeName many) (known : s.type? typeName = some childType)
      (related : field.relationCount ≠ 0) (reached : child.OfField field many x.responseKey)
      (own : Leaves head) (selected : Planned s childType (x.onObjects field.paginate) below)
      (later : Planned s type xs rest) :
      Planned s type (x :: xs) (.table child (head ++ below) :: rest)

theorem findField_ok {type : ObjectType Ctx} {name : String} {l : Location} {field : Field Ctx}
    (h : findField type name l = .ok field) : type.field? name = some field := by
  unfold findField at h
  split at h
  · rename_i found
    rw [found, Except.ok.inj h]
  · cases h

theorem target_ok {field : Field Ctx} {l : Location} {t : ObjectType Ctx} {many : Bool}
    (h : target s field l = .ok (some (t, many))) :
    ∃ name, field.type = .object name many ∧ s.type? name = some t := by
  unfold target at h
  split at h
  · cases h
  · rename_i name list leads
    split at h
    · rename_i known
      obtain ⟨rfl, rfl⟩ := Prod.mk.inj (Option.some.inj (Except.ok.inj h))
      exact ⟨name, leads, known⟩
    · cases h

theorem checkRelated_ok {field : Field Ctx} {child : ObjectType Ctx} {l : Location} {u : Unit}
    (h : checkRelated field child l = .ok u) : field.relationCount ≠ 0 := by
  intro none
  rw [checkRelated, if_pos none] at h
  cases h

/-- The table at hand is the one whose columns are fetched, as its type is configured. -/
theorem requireTable_ok {type : ObjectType Ctx} {t t' : Table} {children : List Node}
    {config : TableConfig Ctx} :
    requireTable type (.table t children) = .ok (t', config) ↔
      t = t' ∧ type.table = some config := by
  rw [requireTable]
  cases type.table <;> simp [Node.table?]

/-- A table is planned first by itself, then with its own columns, and then with what is selected
on its objects. -/
structure Table.PlannedBy (s : Schema Ctx) (cx : Ctx) (x : Selection) (field : Field Ctx)
    (type : ObjectType Ctx) (config : TableConfig Ctx) (many : Bool) (ns : Namespace) (t : Table)
    (ns₁ : Namespace) (head : List Node) (ns₂ : Namespace) (below : List Node) (ns' : Namespace) :
    Prop where
  configured : type.table = some config
  table : ∃ location,
    (planTable cx field config many x.responseKey x.arguments location).run ns = .ok (t, ns₁)
  head : (headNodes cx type.name config t).run ns₁ = .ok (head, ns₂)
  below : (planFields s cx type config t (x.onObjects field.paginate)).run ns₂ = .ok (below, ns')

/-- The steps of planning a selection that leads to no table. -/
inductive LeafSteps (cx : Ctx) (type : ObjectType Ctx) (config : TableConfig Ctx) (t : Table)
    (x : Selection) (ns : Namespace) : List Node → Namespace → Prop
  | introspection : LeafSteps cx type config t x ns [] ns
  | ignored {field : Field Ctx} {location : Location} {nodes : List Node} {ns' : Namespace}
      (ran : (plainColumns cx config t location field.dependencies).run ns = .ok (nodes, ns')) :
      LeafSteps cx type config t x ns nodes ns'
  | scalar {field : Field Ctx} {location : Location} {n : Node} {ns' : Namespace}
      (found : type.field? x.name = some field)
      (ran : (scalarNode cx config t field x.responseKey x.arguments location).run ns =
        .ok (n, ns')) :
      LeafSteps cx type config t x ns [n] ns'
  | noop {location : Location} : LeafSteps cx type config t x ns [.noop x.responseKey location] ns

theorem LeafSteps.leaves {type : ObjectType Ctx} {config : TableConfig Ctx} {t : Table}
    {x : Selection} {ns ns' : Namespace} {nodes : List Node}
    (h : LeafSteps cx type config t x ns nodes ns') : Leaves nodes := by
  cases h with
  | introspection => exact leaves_nil
  | ignored ran => exact plainColumns_leaves ran
  | scalar _ ran => exact leaves_cons (scalarNode_leaf ran) leaves_nil
  | noop => exact leaves_cons rfl leaves_nil

/-- A selection is planned as leaves, or as the table that its field leads to. -/
theorem planField_steps {type : ObjectType Ctx} {config : TableConfig Ctx} {t : Table}
    {x : Selection} {nodes : List Node} {ns ns' : Namespace}
    (h : (planField s cx type config t x).run ns = .ok (nodes, ns')) :
    LeafSteps cx type config t x ns nodes ns' ∨
      ∃ field typeName many childType childConfig child ns₁ head ns₂ below,
        type.field? x.name = some field ∧ field.type = .object typeName many ∧
        s.type? typeName = some childType ∧ field.relationCount ≠ 0 ∧
        child.PlannedBy s cx x field childType childConfig many ns ns₁ head ns₂ below ns' ∧
        nodes = [.table child (head ++ below)] := by
  obtain ⟨name, label, args, selections⟩ := x
  rw [planField] at h
  split at h
  · obtain ⟨rfl, rfl⟩ := run_pure_ok.mp h
    exact .inl .introspection
  obtain ⟨field, ns₁, hf, h⟩ := run_bind_ok.mp h
  obtain ⟨found, rfl⟩ := run_lift_ok.mp hf
  split at h
  · exact .inl (.ignored h)
  obtain ⟨leads, ns₂, ht, h⟩ := run_bind_ok.mp h
  obtain ⟨leads, rfl⟩ := run_lift_ok.mp ht
  split at h
  · obtain ⟨scalar, _, hs, h⟩ := run_bind_ok.mp h
    obtain ⟨rfl, rfl⟩ := run_pure_ok.mp h
    exact .inl (.scalar (findField_ok found) hs)
  rename_i childType many
  obtain ⟨typeName, leads, known⟩ := target_ok leads
  split at h
  · obtain ⟨rfl, rfl⟩ := run_pure_ok.mp h
    exact .inl .noop
  rename_i childConfig configured
  obtain ⟨child, ns₃, hc, h⟩ := run_bind_ok.mp h
  obtain ⟨_, ns₄, hr, h⟩ := run_bind_ok.mp h
  obtain ⟨related, rfl⟩ := run_lift_ok.mp hr
  obtain ⟨⟨child', childConfig'⟩, ns₄, ho, h⟩ := run_bind_ok.mp h
  obtain ⟨own, rfl⟩ := run_lift_ok.mp ho
  obtain ⟨rfl, same⟩ := requireTable_ok.mp own
  cases configured.symm.trans same
  obtain ⟨head, ns₅, hh, h⟩ := run_bind_ok.mp h
  obtain ⟨below, ns₆, hb, h⟩ := run_bind_ok.mp h
  obtain ⟨rfl, rfl⟩ := run_pure_ok.mp h
  rw [(planTable_ok hc).paginate] at hb
  have selected : (planFields s cx childType childConfig child
      (Selection.onObjects field.paginate ⟨name, label, args, selections⟩)).run ns₅ =
      .ok (below, ns₆) := by
    rw [planObjects_eq]
    exact hb
  exact .inr ⟨field, typeName, many, childType, childConfig, child, ns₃, head, ns₅, below,
    findField_ok found, leads, known, checkRelated_ok related, ⟨configured, ⟨_, hc⟩, hh, selected⟩,
    rfl⟩

theorem Table.PlannedBy.reached {x : Selection} {field : Field Ctx} {type : ObjectType Ctx}
    {config : TableConfig Ctx} {many : Bool} {t : Table} {head below : List Node}
    {ns ns₁ ns₂ ns' : Namespace}
    (h : t.PlannedBy s cx x field type config many ns ns₁ head ns₂ below ns') :
    t.OfField field many x.responseKey := by
  obtain ⟨_, planned⟩ := h.table
  exact planTable_ok planned

theorem sizeOf_selections (x : Selection) : sizeOf x.selections < sizeOf x := by
  cases x
  simp only [Selection.mk.sizeOf_spec]
  omega

theorem sizeOf_append (xs ys : List Selection) :
    sizeOf (xs ++ ys) + 1 = sizeOf xs + sizeOf ys := by
  induction xs with
  | nil => simp; omega
  | cons x xs ih =>
    simp only [List.cons_append, List.cons.sizeOf_spec]
    omega

theorem sizeOf_nodeSelections (xs : List Selection) :
    sizeOf (Selection.nodeSelections xs) ≤ sizeOf xs := by
  have under (name : String) (f : Selection → List Selection)
      (hf : ∀ x, sizeOf (f x) ≤ sizeOf x.selections) (xs : List Selection) :
      sizeOf ((xs.filter (fun x => x.name = name)).flatMap f) ≤ sizeOf xs := by
    induction xs with
    | nil => simp
    | cons x xs ih =>
      have smaller := sizeOf_selections x
      rw [List.filter_cons]
      split
      · have := sizeOf_append (f x) ((xs.filter (fun x => x.name = name)).flatMap f)
        have := hf x
        rw [List.flatMap_cons, List.cons.sizeOf_spec]
        omega
      · rw [List.cons.sizeOf_spec]
        omega
  exact under "edges" _ (fun x => under "node" _ (fun _ => Nat.le_refl _) x.selections) xs

theorem sizeOf_onObjects (paginate : Bool) (x : Selection) (xs : List Selection) :
    sizeOf (x.onObjects paginate) < sizeOf (x :: xs) := by
  have smaller := sizeOf_selections x
  have nodes := sizeOf_nodeSelections x.selections
  rw [List.cons.sizeOf_spec]
  unfold Selection.onObjects
  split <;> omega

theorem planFields_ok {type : ObjectType Ctx} {config : TableConfig Ctx} {t : Table} :
    (xs : List Selection) → {nodes : List Node} → {ns ns' : Namespace} →
    (planFields s cx type config t xs).run ns = .ok (nodes, ns') → Planned s type xs nodes
  | [], nodes, ns, ns', h => by
    obtain ⟨rfl, _⟩ := run_pure_ok.mp h
    exact .nil
  | x :: xs, nodes, ns, ns', h => by
    obtain ⟨here, ns₁, hx, h⟩ := run_bind_ok.mp h
    obtain ⟨rest, ns₂, hr, h⟩ := run_bind_ok.mp h
    obtain ⟨rfl, _⟩ := run_pure_ok.mp h
    have later := planFields_ok xs hr
    rcases planField_steps hx with steps | ⟨field, typeName, many, childType, childConfig, child,
      _, head, _, below, found, leads, known, related, planned, rfl⟩
    · exact .leaves steps.leaves later
    · exact .table found leads known related planned.reached (headNodes_leaves planned.head)
        (planFields_ok (x.onObjects field.paginate) planned.below) later
termination_by xs => sizeOf xs
decreasing_by
  · rw [List.cons.sizeOf_spec]
    omega
  · exact sizeOf_onObjects _ _ _

/-- The root of a plan is planned like a selection of the query type, but needs no relation. -/
theorem planRoot_steps {x : Selection} {root : Node} {ns ns' : Namespace}
    (h : (planRoot s cx x).run ns = .ok (root, ns')) :
    root.table? = none ∨ ∃ field typeName many type config t ns₁ head ns₂ below,
      s.queryType.field? x.name = some field ∧ field.type = .object typeName many ∧
      s.type? typeName = some type ∧
      t.PlannedBy s cx x field type config many ns ns₁ head ns₂ below ns' ∧
      root = .table t (head ++ below) := by
  obtain ⟨field, ns₁, hf, h⟩ := run_bind_ok.mp h
  obtain ⟨found, rfl⟩ := run_lift_ok.mp hf
  obtain ⟨leads, ns₂, ht, h⟩ := run_bind_ok.mp h
  obtain ⟨leads, rfl⟩ := run_lift_ok.mp ht
  split at h
  · exact (run_throw_ok.mp h).elim
  rename_i type many
  obtain ⟨typeName, leads, known⟩ := target_ok leads
  split at h
  · obtain ⟨rfl, _⟩ := run_pure_ok.mp h
    exact .inl rfl
  rename_i config configured
  obtain ⟨t, ns₃, hc, h⟩ := run_bind_ok.mp h
  obtain ⟨⟨t', config'⟩, ns₄, ho, h⟩ := run_bind_ok.mp h
  obtain ⟨own, rfl⟩ := run_lift_ok.mp ho
  obtain ⟨rfl, same⟩ := requireTable_ok.mp own
  cases configured.symm.trans same
  obtain ⟨head, ns₅, hh, h⟩ := run_bind_ok.mp h
  obtain ⟨below, ns₆, hb, h⟩ := run_bind_ok.mp h
  obtain ⟨rfl, rfl⟩ := run_pure_ok.mp h
  rw [(planTable_ok hc).paginate] at hb
  have selected : (planFields s cx type config t (x.onObjects field.paginate)).run ns₅ =
      .ok (below, ns₆) := by
    rw [planObjects_eq]
    exact hb
  exact .inr ⟨field, typeName, many, type, config, t, ns₃, head, ns₅, below, findField_ok found,
    leads, known, ⟨configured, ⟨_, hc⟩, hh, selected⟩, rfl⟩

theorem planRoot_ok {x : Selection} {root : Node} {ns ns' : Namespace}
    (h : (planRoot s cx x).run ns = .ok (root, ns')) :
    root.table? = none ∨ ∃ field typeName many childType t head below,
      s.queryType.field? x.name = some field ∧ field.type = .object typeName many ∧
      s.type? typeName = some childType ∧ t.OfField field many x.responseKey ∧ Leaves head ∧
      Planned s childType (x.onObjects field.paginate) below ∧
      root = .table t (head ++ below) := by
  rcases planRoot_steps h with leaf | ⟨field, typeName, many, type, config, t, _, head, _, below,
    found, leads, known, planned, rfl⟩
  · exact .inl leaf
  · exact .inr ⟨field, typeName, many, type, t, head, below, found, leads, known, planned.reached,
      headNodes_leaves planned.head, planFields_ok _ planned.below, rfl⟩

end Plan

end TreeQuery
