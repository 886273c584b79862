import TreeQuery.Proofs.Plan.Relabelled

/-!
A request planned twice, from whatever labels are free. The plans differ in their labels, or there
is none, for one reason.
-/

namespace TreeQuery.Plan

variable {Ctx : Type}

/-- SQL as a function of the quoted label of a table: what the schema computes from it, or the count
of a page. -/
inductive Expression (s : Schema Ctx) (cx : Ctx) : (String → String) → Prop
  | column {type : ObjectType Ctx} {config : TableConfig Ctx}
      {f : String → String → Delegate Ctx String} (column : String) (args : Arguments)
      (known : type ∈ s.types) (configured : type.table = some config)
      (computes : config.columnExpression = some f) :
      Expression s cx (fun label => f label column args cx)
  | field {type : ObjectType Ctx} {name : String} {field : Field Ctx}
      {f : String → Delegate Ctx String} (args : Arguments) (known : type ∈ s.types)
      (found : type.field? name = some field) (computes : field.expression = some f) :
      Expression s cx (fun label => f label args cx)
  | total : Expression s cx (fun label => label ++ "." ++ Identifier.quote totalColumn)

/-- Planned from any labels, both fail alike or have related results. -/
abbrev Planner.Twice {α β : Type} (R : α → β → Prop) (m : Planner α) (m' : Planner β) : Prop :=
  InStep Any R m m'

section Labels

theorem columnLabel_twice (name : String) :
    Planner.Twice Any (columnLabel name) (columnLabel name) :=
  fun _ _ _ => .ok ⟨trivial, trivial⟩

theorem tableLabel_twice (name : String) : Planner.Twice Any (tableLabel name) (tableLabel name) :=
  fun _ _ _ => .ok ⟨trivial, trivial⟩

end Labels

section Tables

variable {cx : Ctx}

theorem planKeys_twice (thisKey parentKey : String) :
    Planner.Twice Batch.Relabelled (planKeys thisKey parentKey) (planKeys thisKey parentKey) := by
  have key (column : String) : Planner.Twice (fun k k' => k' = { k with label := k'.label })
      (batchKey column) (batchKey column) :=
    (columnLabel_twice column).bind (fun _ _ _ => .pure rfl)
  apply (key thisKey).bind
  rintro this _ first
  apply (key parentKey).bind
  rintro parent _ second
  rw [first, second]
  exact .pure (.mk ⟨this, parent⟩ _ _)

theorem planBatch?_twice (b : Option BatchConfig) :
    Planner.Twice (Option.Rel Batch.Relabelled) (planBatch? b) (planBatch? b) := by
  cases b with
  | none => exact .pure .none
  | some b => exact (planKeys_twice _ _).bind (fun _ _ same => .pure (.some same))

theorem planJunctionBatch?_twice (args : Arguments) (b : Option (JunctionBatchConfig Ctx)) :
    Planner.Twice (Option.Rel JunctionBatch.Relabelled) (planJunctionBatch? args cx b)
      (planJunctionBatch? args cx b) := by
  cases b with
  | none => exact .pure .none
  | some b =>
    apply (planKeys_twice _ _).bind
    intro keys keys' same
    exact .pure (.some (.mk ⟨keys, _⟩ same))

theorem planJunction?_twice (args : Arguments) (c : Option (JunctionConfig Ctx)) :
    Planner.Twice (Option.Rel Junction.Relabelled) (planJunction? args cx c)
      (planJunction? args cx c) := by
  cases c with
  | none => exact .pure .none
  | some c =>
    apply (tableLabel_twice _).bind
    intro label label' _
    apply (planJunctionBatch?_twice args c.batch).bind
    intro batch batch' same
    exact .pure (.some (.mk ⟨_, label, _, _, _, _, _, batch⟩ label' same))

theorem planTable_twice (field : Field Ctx) (config : TableConfig Ctx) (many : Bool) (key : String)
    (args : Arguments) (l : Location) :
    Planner.Twice Table.Relabelled (planTable cx field config many key args l)
      (planTable cx field config many key args l) := by
  apply (tableLabel_twice key).bind
  intro label label' _
  apply (planBatch?_twice field.batch).bind
  intro batch batch' keys
  apply (planJunction?_twice args field.junction).bind
  intro junction junction' through
  exact .pure (.mk ⟨_, label, _, _, _, junction, batch, _, _, _, _, _, _⟩ label' through keys)

end Tables

section Nodes

variable {s : Schema Ctx} {cx : Ctx} {type : ObjectType Ctx} {config : TableConfig Ctx}
variable {t t' : Table}

theorem plainColumn_twice (same : t.Relabelled t') (known : type ∈ s.types)
    (configured : type.table = some config) (column fieldName : String) (l : Location) :
    Planner.Twice (Column.Relabelled (Expression s cx) t t')
      (plainColumn cx config t column fieldName l)
      (plainColumn cx config t' column fieldName l) := by
  apply (columnLabel_twice fieldName).bind
  intro label label' _
  apply InStep.pure
  rw [same.arguments]
  cases computes : config.columnExpression with
  | none => exact .name column fieldName label label' false .own l
  | some f =>
    have computed : Expression s cx (fun label => f label column t.arguments cx) :=
      .column column t.arguments known configured computes
    exact .expression computed .own fieldName label label' false l

theorem plainColumns_twice (same : t.Relabelled t') (known : type ∈ s.types)
    (configured : type.table = some config) (l : Location) (columns : List String) :
    Planner.Twice (Relabels (Expression s cx) t t') (plainColumns cx config t l columns)
      (plainColumns cx config t' l columns) := by
  induction columns with
  | nil => exact .pure .nil
  | cons c columns inductionHypothesis =>
    apply (plainColumn_twice same known configured c c l).bind
    intro column column' here
    apply inductionHypothesis.bind
    intro rest rest' later
    exact .pure (.column here later)

theorem identityNode_twice (same : t.Relabelled t') (known : type ∈ s.types)
    (configured : type.table = some config) (typeName : String) :
    Planner.Twice (fun n n' => Relabels (Expression s cx) t t' [n] [n'])
      (identityNode cx typeName config t) (identityNode cx typeName config t') := by
  unfold identityNode
  rw [same.location]
  cases config.uniqueKey with
  | nil => exact .throw _
  | cons c cs =>
    cases cs with
    | nil =>
      apply (plainColumn_twice same known configured c c t.location).bind
      intro column column' here
      refine .pure (.column ?_ .nil)
      cases here with
      | name column fieldName label label' _ tables l =>
        exact .name column fieldName label label' true tables l
      | expression expresses labels fieldName label label' _ l =>
        exact .expression expresses labels fieldName label label' true l
    | cons d cs =>
      apply (columnLabel_twice (String.intercalate "#" (c :: d :: cs))).bind
      intro label label' _
      exact .pure (.composite _ label label' t.location .nil)

theorem keysetNodes_twice (same : t.Relabelled t') {label label' : String}
    (of : t.LabelPair t' label label') (key : SortKey) :
    Planner.Twice (Relabels (Expression s cx) t t') (keysetNodes t label key)
      (keysetNodes t' label' key) := by
  -- a column of the table itself is planned without a table, and is read as the table's own
  have source (u : Table) (a : String) :
      (if a = u.label then none else some a).getD u.label = a := by
    split
    · exact Eq.symm ‹_›
    · rfl
  induction key with
  | nil => exact .pure .nil
  | cons c key inductionHypothesis =>
    apply (columnLabel_twice c.name).bind
    intro a a' _
    apply inductionHypothesis.bind
    intro rest rest' later
    apply InStep.pure
    rw [same.location]
    refine .column (.name c.column c.name a a' false ?_ t.location) later
    rw [source, source]
    exact of

theorem pagingNodes_twice (same : t.Relabelled t') :
    Planner.Twice (Relabels (Expression s cx) t t') (pagingNodes t) (pagingNodes t') := by
  have keys := same.keyset?
  have orders := same.offsetOrder?
  unfold pagingNodes
  rw [same.paginate]
  apply InStep.ite
  · intro _
    exact .pure .nil
  · intro _
    generalize t.keyset? = k at keys ⊢
    generalize t'.keyset? = k' at keys ⊢
    generalize t.offsetOrder? = o at orders ⊢
    generalize t'.offsetOrder? = o' at orders ⊢
    cases keys with
    | @some driven driven' pair =>
      obtain ⟨key, label⟩ := driven
      obtain ⟨_, label'⟩ := driven'
      obtain ⟨rfl, of⟩ := pair
      exact keysetNodes_twice same of key
    | none =>
      cases orders with
      | none => exact .pure .nil
      | some _ =>
        apply (columnLabel_twice totalColumn).bind
        intro label label' _
        apply InStep.pure
        rw [same.location]
        have counts : Expression s cx (fun label => label ++ "." ++ Identifier.quote totalColumn) :=
          .total
        exact .column (.expression counts same.pageLabel totalColumn label label' false t.location)
          .nil

theorem batchNodes_relabels (same : t.Relabelled t') :
    Relabels (Expression s cx) t t' (batchNodes t) (batchNodes t') := by
  have linked := same.junctionBatch?
  have source : t.LabelPair t'
      ((t.junctionBatch?.bind (fun _ => t.junction.map Junction.label)).getD t.label)
      ((t'.junctionBatch?.bind (fun _ => t'.junction.map Junction.label)).getD t'.label) := by
    generalize t.junctionBatch? = b at linked ⊢
    generalize t'.junctionBatch? = b' at linked ⊢
    cases linked with
    | none => exact .own
    | some _ => exact same.pageLabel
  have keys := same.batchKeys?
  unfold batchNodes
  generalize t.batchKeys? = k at keys ⊢
  generalize t'.batchKeys? = k' at keys ⊢
  rw [same.location]
  cases keys with
  | none => exact .nil
  | some same =>
    cases same with
    | mk this parent => exact .column (.name _ _ _ _ true source t.location) .nil

theorem headNodes_twice (same : t.Relabelled t') (known : type ∈ s.types)
    (configured : type.table = some config) (typeName : String) :
    Planner.Twice (Relabels (Expression s cx) t t') (headNodes cx typeName config t)
      (headNodes cx typeName config t') := by
  apply (identityNode_twice same known configured typeName).bind
  intro identity identity' first
  rw [same.location]
  apply (plainColumns_twice same known configured t.location config.alwaysFetch).bind
  intro always always' second
  apply (pagingNodes_twice same).bind
  intro paging paging' third
  exact .pure (((first.append second).append third).append (batchNodes_relabels same))

theorem scalarNode_twice (same : t.Relabelled t') (known : type ∈ s.types)
    (configured : type.table = some config) {name : String} {field : Field Ctx}
    (found : type.field? name = some field) (key : String) (args : Arguments) (l : Location) :
    Planner.Twice (fun n n' => Relabels (Expression s cx) t t' [n] [n'])
      (scalarNode cx config t field key args l) (scalarNode cx config t' field key args l) := by
  unfold scalarNode
  cases computes : field.expression with
  | some f =>
    apply (columnLabel_twice key).bind
    intro label label' _
    have computed : Expression s cx (fun label => f label args cx) :=
      .field args known found computes
    exact .pure (.column (.expression computed .own key label label' false l) .nil)
  | none =>
    apply (plainColumn_twice same known configured field.columnName key l).bind
    intro column column' here
    exact .pure (.column here .nil)

/-- The nodes of a table, and then what is selected on its objects. -/
theorem planBelow_twice {x : Selection} (same : t.Relabelled t') (known : type ∈ s.types)
    (configured : type.table = some config)
    (selected : Planner.Twice (Relabels (Expression s cx) t t')
      (planFields s cx type config t (x.onObjects t.paginate))
      (planFields s cx type config t' (x.onObjects t.paginate)))
    {α : Type} {R : α → α → Prop} (f g : List Node → α)
    (made : ∀ nodes nodes', Relabels (Expression s cx) t t' nodes nodes' → R (f nodes) (g nodes')) :
    Planner.Twice R
      (do
        let head ← headNodes cx type.name config t
        let rest ← (if t.paginate then planEdges s cx type config t x.selections
          else planFields s cx type config t x.selections)
        return f (head ++ rest))
      (do
        let head ← headNodes cx type.name config t'
        let rest ← (if t'.paginate then planEdges s cx type config t' x.selections
          else planFields s cx type config t' x.selections)
        return g (head ++ rest)) := by
  apply (headNodes_twice same known configured type.name).bind
  intro head head' own
  rw [← planObjects_eq, ← planObjects_eq, same.paginate]
  apply selected.bind
  intro rest rest' below
  exact .pure (made _ _ (own.append below))

theorem planField_twice (same : t.Relabelled t') (known : type ∈ s.types)
    (configured : type.table = some config) (x : Selection)
    (selected : ∀ (childType : ObjectType Ctx) (childConfig : TableConfig Ctx)
      (child child' : Table) (paginate : Bool), child.Relabelled child' → childType ∈ s.types →
      childType.table = some childConfig →
      Planner.Twice (Relabels (Expression s cx) child child')
        (planFields s cx childType childConfig child (x.onObjects paginate))
        (planFields s cx childType childConfig child' (x.onObjects paginate))) :
    Planner.Twice (Relabels (Expression s cx) t t') (planField s cx type config t x)
      (planField s cx type config t' x) := by
  obtain ⟨name, label, args, selections⟩ := x
  rw [planField, planField, same.location]
  apply InStep.ite
  · intro _
    exact .pure .nil
  intro _
  apply (InStep.lift_self (findField type name t.location)).bind
  rintro field _ ⟨rfl, found⟩
  apply InStep.ite
  · intro _
    exact plainColumns_twice same known configured _ field.dependencies
  intro _
  apply (InStep.lift_self (target s field _)).bind
  rintro leads _ ⟨rfl, leadsTo⟩
  cases leads with
  | none =>
    apply (scalarNode_twice same known configured (findField_ok found) _ args _).bind
    intro n n' here
    exact .pure here
  | some to_ =>
    obtain ⟨childType, many⟩ := to_
    obtain ⟨_, _, childKnown⟩ := target_ok leadsTo
    dsimp only
    cases childConfigured : childType.table with
    | none => exact .pure (.noop _ _ .nil)
    | some childConfig =>
      apply (planTable_twice field childConfig many _ args _).bind
      intro child child' reached
      apply (InStep.lift_self (checkRelated field childType _)).bind
      rintro _ _ _
      rw [requireTable_ok.mpr ⟨rfl, childConfigured⟩, requireTable_ok.mpr ⟨rfl, childConfigured⟩]
      have childKnown := Schema.mem_types childKnown
      exact planBelow_twice (x := ⟨name, label, args, selections⟩) reached childKnown
        childConfigured (selected childType childConfig child child' child.paginate reached childKnown
          childConfigured) (fun nodes => [Node.table child nodes])
        (fun nodes => [Node.table child' nodes])
        (fun _ _ below => .table reached below .nil)

/-- Two tables that differ in labels are given nodes that differ in labels. -/
theorem planFields_twice {type : ObjectType Ctx} {config : TableConfig Ctx} {t t' : Table}
    (same : t.Relabelled t') (known : type ∈ s.types) (configured : type.table = some config) :
    (xs : List Selection) → Planner.Twice (Relabels (Expression s cx) t t')
      (planFields s cx type config t xs) (planFields s cx type config t' xs)
  | [] => .pure .nil
  | x :: xs => by
    rw [planFields, planFields]
    apply (planField_twice same known configured x (fun childType childConfig child child' paginate
      reached childKnown childConfigured =>
        planFields_twice reached childKnown childConfigured (x.onObjects paginate))).bind
    intro here here' first
    apply (planFields_twice same known configured xs).bind
    intro rest rest' later
    exact .pure (first.append later)
termination_by xs => sizeOf xs
decreasing_by
  · exact sizeOf_onObjects _ _ _
  · rw [List.cons.sizeOf_spec]
    omega

end Nodes

variable {s : Schema Ctx} {cx : Ctx}

theorem planRoot_twice (x : Selection) :
    Planner.Twice (Node.Relabelled (Expression s cx)) (planRoot s cx x) (planRoot s cx x) := by
  apply (InStep.lift_self (findField s.queryType x.name [s.queryType.name])).bind
  rintro field _ ⟨rfl, _⟩
  apply (InStep.lift_self (target s field _)).bind
  rintro leads _ ⟨rfl, leadsTo⟩
  cases leads with
  | none => exact .throw _
  | some to_ =>
    obtain ⟨type, many⟩ := to_
    obtain ⟨_, _, known⟩ := target_ok leadsTo
    have known := Schema.mem_types known
    dsimp only
    cases configured : type.table with
    | none => exact .pure (.noop _ _)
    | some config =>
      apply (planTable_twice field config many _ x.arguments _).bind
      intro t t' reached
      rw [requireTable_ok.mpr ⟨rfl, configured⟩, requireTable_ok.mpr ⟨rfl, configured⟩]
      exact planBelow_twice reached known configured
        (planFields_twice reached known configured (x.onObjects t.paginate)) (Node.table t)
        (Node.table t') (fun _ _ below => .table reached below)

/-- The plans of a request with labels of both kinds differ in labels only. -/
theorem plan_twice (minify minify' : Bool) (x : Selection) :
    Outcomes (Node.Relabelled (Expression s cx)) (s.plan minify cx x) (s.plan minify' cx x) :=
  (planRoot_twice x _ _ trivial).map (fun _ _ ends => ends.1)

end TreeQuery.Plan
