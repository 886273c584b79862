import TreeQuery.Proofs.Plan.Taking
import TreeQuery.Proofs.Plan.WellFormed

/-!
The columns below a planned table: its identity comes first and nothing else is part of it, the sort
key of a page is among them, and the label of a column tells the name of its field.
-/

namespace TreeQuery.Plan

namespace Node

/-- The field and the label of a column. -/
def entry? : Node → Option (String × String)
  | .column c => some (c.fieldName, c.label)
  | .composite c => some (c.fieldName, c.label)
  | _ => none

/-- Objects are told apart by such a column. -/
def identifies : Node → Bool
  | .column c => c.isIdentity
  | .composite _ => true
  | _ => false

def entries (nodes : List Node) : List (String × String) := nodes.filterMap entry?

theorem entries_append (a b : List Node) : entries (a ++ b) = entries a ++ entries b :=
  List.filterMap_append

end Node

open Node (entries)

/-- Planning some columns takes a new label for each, or else labels them by their fields. -/
structure Labelled (ns : Namespace) (nodes : List Node) (ns' : Namespace) : Prop where
  minify : ns'.minify = ns.minify
  short : ns.minify = true → ns'.used = ((entries nodes).map Prod.snd).reverse ++ ns.used ∧
    (ns.used.Nodup → ns'.used.Nodup)
  long : ns.minify = false → ∀ e ∈ entries nodes, e.2 = e.1

namespace Labelled

variable {ns ns₁ ns' : Namespace} {a b : List Node}

theorem nil : Labelled ns [] ns where
  minify := rfl
  short _ := ⟨rfl, id⟩
  long _ := by simp [entries]

/-- Nothing is labelled for a relation to a type without a table. -/
theorem noop (name : String) (l : Location) : Labelled ns [.noop name l] ns := ⟨rfl, nil.2, nil.3⟩

theorem append (first : Labelled ns a ns₁) (second : Labelled ns₁ b ns') :
    Labelled ns (a ++ b) ns' where
  minify := second.minify.trans first.minify
  short h := by
    obtain ⟨used, distinct⟩ := first.short h
    obtain ⟨used', distinct'⟩ := second.short (first.minify.trans h)
    refine ⟨?_, fun before => distinct' (distinct before)⟩
    rw [used', used, Node.entries_append, List.map_append, List.reverse_append, List.append_assoc]
  long h := by
    rw [Node.entries_append, List.forall_mem_append]
    exact ⟨first.long h, second.long (first.minify.trans h)⟩

theorem one {name label : String} {n : Node} (taken : (columnLabel name).run ns = .ok (label, ns'))
    (entry : n.entry? = some (name, label)) : Labelled ns [n] ns' := by
  have spec := Namespace.takeColumn_spec (Except.ok.inj taken)
  have own : entries [n] = [(name, label)] := by simp [entries, entry]
  refine ⟨spec.1, ?_, ?_⟩
  · intro h
    obtain ⟨fresh, used⟩ := by simpa [h] using spec.2
    rw [own, used]
    exact ⟨rfl, List.nodup_cons.mpr ∘ And.intro fresh⟩
  · intro h
    rw [own]
    simpa [h] using spec.2

/-- Columns with one label are fields of one name. -/
theorem field_of_label (h : Labelled ns a ns') (distinct : ns.minify = true → ns.used.Nodup)
    {e e' : String × String} (he : e ∈ entries a) (he' : e' ∈ entries a) (same : e.2 = e'.2) :
    e.1 = e'.1 := by
  cases minify : ns.minify with
  | false => rw [← h.long minify e he, ← h.long minify e' he', same]
  | true =>
    obtain ⟨used, kept⟩ := h.short minify
    have labels := kept (distinct minify)
    rw [used] at labels
    have labels := List.nodup_reverse.mp (List.nodup_append.mp labels).1
    exact congrArg Prod.fst (List.inj_on_of_nodup_map labels he he' same)

end Labelled

variable {Ctx : Type} {s : Schema Ctx} {cx : Ctx} {config : TableConfig Ctx} {t : Table}
variable {ns ns' : Namespace} {nodes : List Node}

theorem plainColumn_ok {column fieldName : String} {l : Location} {c : Column}
    (h : (plainColumn cx config t column fieldName l).run ns = .ok (c, ns')) :
    (columnLabel fieldName).run ns = .ok (c.label, ns') ∧ c.fieldName = fieldName ∧
      c.isIdentity = false := by
  obtain ⟨label, ns₁, taken, h⟩ := run_bind_ok.mp h
  obtain ⟨rfl, rfl⟩ := run_pure_ok.mp h
  exact ⟨taken, rfl, rfl⟩

/-- Columns that are not part of the identity. -/
def Plain (nodes : List Node) : Prop := ∀ n ∈ nodes, n.identifies = false

theorem plainColumns_ok {l : Location} {columns : List String}
    (h : (plainColumns cx config t l columns).run ns = .ok (nodes, ns')) :
    Labelled ns nodes ns' ∧ Plain nodes := by
  induction columns generalizing ns nodes with
  | nil =>
    obtain ⟨rfl, rfl⟩ := run_pure_ok.mp h
    exact ⟨.nil, by simp [Plain]⟩
  | cons c columns inductionHypothesis =>
    obtain ⟨column, ns₁, hc, h⟩ := run_bind_ok.mp h
    obtain ⟨rest, ns₂, hr, h⟩ := run_bind_ok.mp h
    obtain ⟨rfl, rfl⟩ := run_pure_ok.mp h
    obtain ⟨taken, field, plain⟩ := plainColumn_ok hc
    obtain ⟨labelled, others⟩ := inductionHypothesis hr
    have first : Labelled ns [.column column] ns₁ := .one taken (by rw [Node.entry?, field])
    exact ⟨first.append labelled, List.forall_mem_cons.mpr ⟨plain, others⟩⟩

theorem identityNode_ok {typeName : String} {n : Node}
    (h : (identityNode cx typeName config t).run ns = .ok (n, ns')) :
    Labelled ns [n] ns' ∧ n.identifies = true := by
  unfold identityNode at h
  split at h
  · exact (run_throw_ok.mp h).elim
  · obtain ⟨column, ns₁, hc, h⟩ := run_bind_ok.mp h
    obtain ⟨rfl, rfl⟩ := run_pure_ok.mp h
    obtain ⟨taken, field, _⟩ := plainColumn_ok hc
    exact ⟨.one taken (by rw [Node.entry?, field]), rfl⟩
  · obtain ⟨label, ns₁, taken, h⟩ := run_bind_ok.mp h
    obtain ⟨rfl, rfl⟩ := run_pure_ok.mp h
    exact ⟨.one taken rfl, rfl⟩

/-- The columns of a sort key are fetched under their names in cursors. -/
def Fetches (t : Table) (label : String) (key : SortKey) (nodes : List Node) : Prop :=
  ∀ c ∈ key, ∃ d : Column, .column d ∈ nodes ∧ d.fieldName = c.name ∧ d.source = .name c.column ∧
    d.fromTable = if label = t.label then none else some label

theorem keysetNodes_ok {label : String} {key : SortKey}
    (h : (keysetNodes t label key).run ns = .ok (nodes, ns')) :
    Labelled ns nodes ns' ∧ Plain nodes ∧ Fetches t label key nodes := by
  induction key generalizing ns nodes with
  | nil =>
    obtain ⟨rfl, rfl⟩ := run_pure_ok.mp h
    exact ⟨.nil, by simp [Plain], by simp [Fetches]⟩
  | cons c key inductionHypothesis =>
    obtain ⟨a, ns₁, taken, h⟩ := run_bind_ok.mp h
    obtain ⟨rest, ns₂, hr, h⟩ := run_bind_ok.mp h
    obtain ⟨rfl, rfl⟩ := run_pure_ok.mp h
    obtain ⟨labelled, plain, fetched⟩ := inductionHypothesis hr
    refine ⟨.append (.one (n := .column ⟨.name c.column, c.name, a, false, _, _⟩) taken rfl)
      labelled, List.forall_mem_cons.mpr ⟨rfl, plain⟩, ?_⟩
    refine List.forall_mem_cons.mpr ⟨⟨_, List.mem_cons_self .., rfl, rfl, rfl⟩, ?_⟩
    intro d hd
    obtain ⟨column, member, spec⟩ := fetched d hd
    exact ⟨column, List.mem_cons_of_mem _ member, spec⟩

theorem pagingNodes_ok (h : (pagingNodes t).run ns = .ok (nodes, ns')) :
    Labelled ns nodes ns' ∧ Plain nodes ∧ ∀ key label, t.paginate = true →
      t.keyset? = some (key, label) → Fetches t label key nodes := by
  unfold pagingNodes at h
  split at h
  · rename_i unpaged
    obtain ⟨rfl, rfl⟩ := run_pure_ok.mp h
    refine ⟨.nil, by simp [Plain], ?_⟩
    intro key label paged
    simp [paged] at unpaged
  split at h
  · rename_i key label keyed
    obtain ⟨labelled, plain, fetched⟩ := keysetNodes_ok h
    refine ⟨labelled, plain, ?_⟩
    rintro key' label' _ same
    cases keyed.symm.trans same
    exact fetched
  · rename_i unkeyed _
    obtain ⟨label, ns₁, taken, h⟩ := run_bind_ok.mp h
    obtain ⟨rfl, rfl⟩ := run_pure_ok.mp h
    refine ⟨.one taken rfl, by simp [Plain, Node.identifies], ?_⟩
    intro key label _ keyed
    cases unkeyed.symm.trans keyed
  · rename_i unkeyed _
    obtain ⟨rfl, rfl⟩ := run_pure_ok.mp h
    refine ⟨.nil, by simp [Plain], ?_⟩
    intro key label _ keyed
    cases unkeyed.symm.trans keyed

/-- The nodes that a table has before any are selected, if no batch adds to its identity. -/
theorem headNodes_ok {typeName : String} (single : t.batchKeys? = none)
    (h : (headNodes cx typeName config t).run ns = .ok (nodes, ns')) :
    ∃ identity rest, nodes = identity :: rest ∧ identity.identifies = true ∧
      Labelled ns nodes ns' ∧ Plain rest ∧ ∀ key label, t.paginate = true →
        t.keyset? = some (key, label) → Fetches t label key rest := by
  obtain ⟨identity, ns₁, hi, h⟩ := run_bind_ok.mp h
  obtain ⟨always, ns₂, ha, h⟩ := run_bind_ok.mp h
  obtain ⟨paging, ns₃, hp, h⟩ := run_bind_ok.mp h
  obtain ⟨rfl, rfl⟩ := run_pure_ok.mp h
  obtain ⟨first, identifies⟩ := identityNode_ok hi
  obtain ⟨second, plain⟩ := plainColumns_ok ha
  obtain ⟨third, plain', fetched⟩ := pagingNodes_ok hp
  have alone : batchNodes t = [] := by rw [batchNodes, single]
  rw [alone, List.append_nil]
  refine ⟨identity, always ++ paging, rfl, identifies, (first.append second).append third,
    List.forall_mem_append.mpr ⟨plain, plain'⟩, ?_⟩
  intro key label paged keyed c hc
  obtain ⟨column, member, spec⟩ := fetched key label paged keyed c hc
  exact ⟨column, List.mem_append_right _ member, spec⟩

theorem scalarNode_ok {field : Field Ctx} {key : String} {args : Arguments} {l : Location}
    {n : Node} (h : (scalarNode cx config t field key args l).run ns = .ok (n, ns')) :
    Labelled ns [n] ns' ∧ n.identifies = false := by
  unfold scalarNode at h
  split at h
  · obtain ⟨label, ns₁, taken, h⟩ := run_bind_ok.mp h
    obtain ⟨rfl, rfl⟩ := run_pure_ok.mp h
    exact ⟨.one taken rfl, rfl⟩
  · obtain ⟨column, ns₁, hc, h⟩ := run_bind_ok.mp h
    obtain ⟨rfl, rfl⟩ := run_pure_ok.mp h
    obtain ⟨taken, field, plain⟩ := plainColumn_ok hc
    exact ⟨.one taken (by rw [Node.entry?, field]), plain⟩

theorem LeafSteps.columns {type : ObjectType Ctx} {x : Selection}
    (h : LeafSteps cx type config t x ns nodes ns') : Labelled ns nodes ns' ∧ Plain nodes := by
  cases h with
  | introspection => exact ⟨.nil, by simp [Plain]⟩
  | ignored ran => exact plainColumns_ok ran
  | scalar _ ran =>
    obtain ⟨labelled, plain⟩ := scalarNode_ok ran
    exact ⟨labelled, by simp [Plain, plain]⟩
  | noop => exact ⟨.noop _ _, by simp [Plain, Node.identifies]⟩

theorem planField_columns {type : ObjectType Ctx} {x : Selection} (leaves : Leaves nodes)
    (h : (planField s cx type config t x).run ns = .ok (nodes, ns')) :
    Labelled ns nodes ns' ∧ Plain nodes := by
  rcases planField_steps h with steps | ⟨_, _, _, _, _, child, _, _, _, _, _, _, _, _, _, rfl⟩
  · exact steps.columns
  · -- A relation to a table is planned as one, which is no leaf.
    cases leaves _ (List.mem_singleton_self _)

theorem planFields_columns {type : ObjectType Ctx} {xs : List Selection} (leaves : Leaves nodes)
    (h : (planFields s cx type config t xs).run ns = .ok (nodes, ns')) :
    Labelled ns nodes ns' ∧ Plain nodes := by
  induction xs generalizing ns nodes with
  | nil =>
    obtain ⟨rfl, rfl⟩ := run_pure_ok.mp h
    exact ⟨.nil, by simp [Plain]⟩
  | cons x xs inductionHypothesis =>
    obtain ⟨here, ns₁, hx, h⟩ := run_bind_ok.mp h
    obtain ⟨rest, ns₂, hr, h⟩ := run_bind_ok.mp h
    obtain ⟨rfl, rfl⟩ := run_pure_ok.mp h
    obtain ⟨own, others⟩ := List.forall_mem_append.mp leaves
    obtain ⟨labelled, plain⟩ := planField_columns own hx
    obtain ⟨labelled', plain'⟩ := inductionHypothesis others hr
    exact ⟨labelled.append labelled', List.forall_mem_append.mpr ⟨plain, plain'⟩⟩

/-- A sort key that is planned has columns. -/
theorem ordering_ne_nil {α : Type} {d : Option (Delegate Ctx (List α))} {args : Arguments}
    {order : List α} (h : ordering d args cx = some order) : order ≠ [] := by
  rw [ordering, Option.filter_eq_some_iff] at h
  simpa using h.2

/-- What stands below a table that has no joined tables and is no batch. -/
structure ColumnsOnly (t : Table) (children : List Node) : Prop where
  leaves : Leaves children
  identity : ∃ first rest, children = first :: rest ∧ first.identifies = true ∧ Plain rest
  fetched : ∀ key label, t.paginate = true → t.keyset? = some (key, label) →
    Fetches t label key children
  field_of_label : ∀ e ∈ entries children, ∀ e' ∈ entries children, e.2 = e'.2 → e.1 = e'.1
  key_ne_nil : ∀ key, t.sortKey = some key → key ≠ []

theorem planRoot_columns {x : Selection} {children : List Node} (leaves : Leaves children)
    (single : t.batchKeys? = none) (distinct : ns.minify = true → ns.used.Nodup)
    (h : (planRoot s cx x).run ns = .ok (.table t children, ns')) : ColumnsOnly t children := by
  rcases planRoot_steps h with leaf | ⟨_, _, _, _, _, t, _, head, _, below, _, _, _, planned, same⟩
  · cases leaf
  obtain ⟨rfl, rfl⟩ := Node.table.inj same
  obtain ⟨_, hc⟩ := planned.table
  have reached := (planTable_onlyTakes _ _ _ _ _).reached hc
  obtain ⟨own, others⟩ := List.forall_mem_append.mp leaves
  obtain ⟨first, rest, rfl, identifies, labelled, plain, fetched⟩ := headNodes_ok single planned.head
  obtain ⟨labelled', plain'⟩ := planFields_columns others planned.below
  have labels := labelled.append labelled'
  refine ⟨leaves, ⟨first, rest ++ below, rfl, identifies,
    List.forall_mem_append.mpr ⟨plain, plain'⟩⟩, ?_, ?_, ?_⟩
  · intro key label paged keyed c member
    obtain ⟨column, present, spec⟩ := fetched key label paged keyed c member
    exact ⟨column, List.mem_append_left _ (List.mem_cons_of_mem _ present), spec⟩
  · intro e he e' he' alike
    refine labels.field_of_label (fun short => ?_) he he' alike
    exact reached.distinct (distinct (reached.minify.symm.trans short))
  · intro key keyed
    obtain ⟨label, _, _, hc⟩ := run_bind_ok.mp hc
    obtain ⟨batch, _, _, hc⟩ := run_bind_ok.mp hc
    obtain ⟨junction, _, _, hc⟩ := run_bind_ok.mp hc
    obtain ⟨rfl, _⟩ := run_pure_ok.mp hc
    exact ordering_ne_nil keyed

theorem plan_columns {minify : Bool} {x : Selection} {children : List Node}
    (leaves : Leaves children) (single : t.batchKeys? = none)
    (h : s.plan minify cx x = .ok (.table t children)) : ColumnsOnly t children := by
  obtain ⟨_, ran⟩ := plan_ok h
  exact planRoot_columns leaves single (fun _ => List.nodup_singleton _) ran

end TreeQuery.Plan
