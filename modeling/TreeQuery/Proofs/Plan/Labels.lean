import TreeQuery.Proofs.Plan.Columns
import TreeQuery.Proofs.Plan.TableLabels

/-!
All labels of a plan. Those of tables and junctions differ in any case. Where labels are short, those
of columns and of the keys of batches differ from them and from each other as well, except that the
column that is fetched for the own key of a batch has the label of the key.
-/

namespace TreeQuery.Plan

def Batch.labels (keys : Batch) : List String := [keys.thisKey.label, keys.parentKey.label]

/-- The labels of the keys that a table is matched to its parents by. -/
def Table.keyLabels (t : Table) : List String :=
  (t.batch.toList ++ (t.junctionBatch?.map JunctionBatch.keys).toList).flatMap Batch.labels

/-- The label of the key that stands among the columns of a batch. -/
def Table.ownKeyLabel (t : Table) : List String :=
  (t.batchKeys?.map (fun keys => keys.thisKey.label)).toList

/-- The labels of the columns of a table, but for the column that has the label of a key. -/
def Table.columnLabels (t : Table) (children : List Node) : List String :=
  ((Node.entries children).map Prod.snd).diff t.ownKeyLabel

theorem Table.labels_subset_keyLabels (t : Table) {keys : Batch} (batch : t.batchKeys? = some keys) :
    keys.labels ⊆ t.keyLabels := by
  have listed : keys ∈ t.batch.toList ++ (t.junctionBatch?.map JunctionBatch.keys).toList := by
    rw [List.mem_append, Option.mem_toList, Option.mem_toList]
    rw [batchKeys?] at batch
    exact (Option.or_eq_some_iff.mp batch).imp_right And.right
  intro label hl
  exact List.mem_flatMap.mpr ⟨keys, listed, hl⟩

theorem Table.ownKeyLabel_subset (t : Table) : t.ownKeyLabel ⊆ t.keyLabels := by
  intro label own
  rw [ownKeyLabel, Option.mem_toList] at own
  obtain ⟨keys, batch, rfl⟩ := Option.map_eq_some_iff.mp own
  exact t.labels_subset_keyLabels batch (List.mem_cons_self ..)

namespace Node

mutual

def labels : Node → List String
  | .table t children => t.labels ++ t.keyLabels ++ t.columnLabels children ++ labelsIn children
  | _ => []

/-- The labels of the tables among some nodes, with all that belongs to them. -/
def labelsIn : List Node → List String
  | [] => []
  | n :: r => labels n ++ labelsIn r

end

theorem labelsIn_append (a b : List Node) : labelsIn (a ++ b) = labelsIn a ++ labelsIn b := by
  induction a with
  | nil => rfl
  | cons n a inductionHypothesis =>
    rw [List.cons_append, labelsIn, labelsIn, inductionHypothesis, List.append_assoc]

theorem labels_leaf {n : Node} (leaf : n.table? = none) : labels n = [] := by
  cases n with
  | table t children => cases leaf
  | column _ | composite _ | noop _ _ => rfl

theorem labelsIn_leaves {nodes : List Node} (leaves : Leaves nodes) : labelsIn nodes = [] := by
  induction nodes with
  | nil => rfl
  | cons n nodes inductionHypothesis =>
    obtain ⟨leaf, others⟩ := List.forall_mem_cons.mp leaves
    rw [labelsIn, labels_leaf leaf, inductionHypothesis others, List.append_nil]

theorem labels_subset_labelsIn {nodes : List Node} {n : Node} (member : n ∈ nodes) :
    labels n ⊆ labelsIn nodes := by
  induction nodes with
  | nil => cases member
  | cons m nodes inductionHypothesis =>
    rw [labelsIn]
    rcases List.mem_cons.mp member with rfl | later
    · exact List.subset_append_left _ _
    · exact List.subset_append_of_subset_right _ (inductionHypothesis later)

mutual

theorem everywhere_labels {known : List String} : (n : Node) → labels n ⊆ known →
    n.Everywhere (fun t children => labels (.table t children) ⊆ known)
  | .table t children, h => by
    refine ⟨h, everywhereIn_labels children (List.Subset.trans ?_ h)⟩
    rw [labels]
    exact List.subset_append_right _ _
  | .column _, _ | .composite _, _ | .noop _ _, _ => trivial

theorem everywhereIn_labels {known : List String} : (nodes : List Node) →
    labelsIn nodes ⊆ known →
    EverywhereIn (fun t children => labels (.table t children) ⊆ known) nodes
  | [], _ => trivial
  | n :: r, h => by
    obtain ⟨here, later⟩ := List.append_subset.mp h
    exact ⟨everywhere_labels n here, everywhereIn_labels r later⟩

end

theorem ownLabel_mem (t : Table) (children : List Node) : t.label ∈ labels (.table t children) := by
  rw [labels]
  simp [t.label_mem_labels]

/-- The column that shares its label with a key is found with the key. -/
theorem entry_mem {t : Table} {children : List Node} {n : Node} {name label : String}
    (member : n ∈ children) (entry : n.entry? = some (name, label)) :
    label ∈ labels (.table t children) := by
  have listed : label ∈ (entries children).map Prod.snd :=
    List.mem_map_of_mem (List.mem_filterMap.mpr ⟨n, member, entry⟩)
  have found : label ∈ t.keyLabels ∨ label ∈ t.columnLabels children := by
    by_cases own : label ∈ t.ownKeyLabel
    · exact .inl (t.ownKeyLabel_subset own)
    · exact .inr (List.mem_diff_of_mem listed own)
  rw [labels]
  rcases found with key | column
  · simp [key]
  · simp [column]

theorem parentKey_mem (t : Table) (children : List Node) {keys : Batch}
    (batch : t.batchKeys? = some keys) : keys.parentKey.label ∈ labels (.table t children) := by
  have key := t.labels_subset_keyLabels batch (List.mem_cons_of_mem _ (List.mem_singleton_self _))
  rw [labels]
  simp [key]

end Node

open Node (entries labelsIn)

/-- With short labels, exactly these are taken. -/
structure Fills (ns : Namespace) (labels : List String) (ns' : Namespace) : Prop where
  minify : ns'.minify = ns.minify
  used : ns.minify = true → ns'.used.Perm (labels ++ ns.used)

namespace Fills

variable {ns ns₁ ns' : Namespace} {a b : List String}

theorem nil : Fills ns [] ns := ⟨rfl, fun _ => .refl _⟩

theorem append (first : Fills ns a ns₁) (later : Fills ns₁ b ns') : Fills ns (a ++ b) ns' where
  minify := later.minify.trans first.minify
  used short := by
    have after := later.used (first.minify.trans short)
    have before : (b ++ ns₁.used).Perm (b ++ (a ++ ns.used)) := (first.used short).append_left b
    refine (after.trans before).trans ?_
    rw [← List.append_assoc]
    exact List.perm_append_comm.append_right ns.used

theorem perm (h : Fills ns a ns') (same : a.Perm b) : Fills ns b ns' where
  minify := h.minify
  used short := (h.used short).trans (same.append_right ns.used)

/-- Labels that are taken for columns. -/
theorem ofLabelled {nodes : List Node} (h : Labelled ns nodes ns') :
    Fills ns ((entries nodes).map Prod.snd) ns' where
  minify := h.minify
  used short := by
    rw [(h.short short).1]
    exact (List.reverse_perm _).append_right ns.used

end Fills

variable {Ctx : Type} {s : Schema Ctx} {cx : Ctx} {config : TableConfig Ctx} {t : Table}
variable {ns ns' : Namespace}

section Tables

theorem columnLabel_fills {name label : String}
    (ran : (columnLabel name).run ns = .ok (label, ns')) : Fills ns [label] ns' := by
  obtain ⟨minify, spec⟩ := Namespace.takeColumn_spec (Except.ok.inj ran)
  refine ⟨minify, fun short => ?_⟩
  rw [short, if_pos rfl] at spec
  rw [spec.2]
  exact .refl _

theorem tableLabel_fills {name label : String}
    (ran : (tableLabel name).run ns = .ok (label, ns')) : Fills ns [label] ns' := by
  obtain ⟨minify, _, used⟩ := Namespace.takeTable_spec (Except.ok.inj ran)
  refine ⟨minify, fun _ => ?_⟩
  rw [used]
  exact .refl _

theorem batchKey_fills {column : String} {key : BatchKey}
    (ran : (batchKey column).run ns = .ok (key, ns')) : Fills ns [key.label] ns' := by
  obtain ⟨label, _, taken, ran⟩ := run_bind_ok.mp ran
  obtain ⟨rfl, rfl⟩ := run_pure_ok.mp ran
  exact columnLabel_fills taken

theorem planKeys_fills {thisKey parentKey : String} {keys : Batch}
    (ran : (planKeys thisKey parentKey).run ns = .ok (keys, ns')) : Fills ns keys.labels ns' := by
  obtain ⟨this, ns₁, first, ran⟩ := run_bind_ok.mp ran
  obtain ⟨parent, ns₂, later, ran⟩ := run_bind_ok.mp ran
  obtain ⟨rfl, rfl⟩ := run_pure_ok.mp ran
  exact (batchKey_fills first).append (batchKey_fills later)

theorem planBatch?_fills {c : Option BatchConfig} {b : Option Batch}
    (ran : (planBatch? c).run ns = .ok (b, ns')) : Fills ns (b.toList.flatMap Batch.labels) ns' := by
  cases c with
  | none =>
    obtain ⟨rfl, rfl⟩ := run_pure_ok.mp ran
    exact .nil
  | some c =>
    obtain ⟨keys, _, first, ran⟩ := run_bind_ok.mp ran
    obtain ⟨rfl, rfl⟩ := run_pure_ok.mp ran
    exact planKeys_fills first

theorem planJunctionBatch?_fills {args : Arguments} {c : Option (JunctionBatchConfig Ctx)}
    {b : Option JunctionBatch} (ran : (planJunctionBatch? args cx c).run ns = .ok (b, ns')) :
    Fills ns ((b.map JunctionBatch.keys).toList.flatMap Batch.labels) ns' := by
  cases c with
  | none =>
    obtain ⟨rfl, rfl⟩ := run_pure_ok.mp ran
    exact .nil
  | some c =>
    obtain ⟨keys, _, first, ran⟩ := run_bind_ok.mp ran
    obtain ⟨rfl, rfl⟩ := run_pure_ok.mp ran
    exact planKeys_fills first

theorem planJunction?_fills {args : Arguments} {c : Option (JunctionConfig Ctx)}
    {j : Option Junction} (ran : (planJunction? args cx c).run ns = .ok (j, ns')) :
    Fills ns ((j.map Junction.label).toList ++
      ((j.bind Junction.batch).map JunctionBatch.keys).toList.flatMap Batch.labels) ns' := by
  cases c with
  | none =>
    obtain ⟨rfl, rfl⟩ := run_pure_ok.mp ran
    exact .nil
  | some c =>
    obtain ⟨label, ns₁, first, ran⟩ := run_bind_ok.mp ran
    obtain ⟨batch, ns₂, later, ran⟩ := run_bind_ok.mp ran
    obtain ⟨rfl, rfl⟩ := run_pure_ok.mp ran
    exact (tableLabel_fills first).append (planJunctionBatch?_fills later)

theorem planTable_fills {field : Field Ctx} {many : Bool} {key : String} {args : Arguments}
    {l : Location} (ran : (planTable cx field config many key args l).run ns = .ok (t, ns')) :
    Fills ns (t.labels ++ t.keyLabels) ns' := by
  obtain ⟨label, ns₁, own, ran⟩ := run_bind_ok.mp ran
  obtain ⟨batch, ns₂, keys, ran⟩ := run_bind_ok.mp ran
  obtain ⟨junction, ns₃, linked, ran⟩ := run_bind_ok.mp ran
  obtain ⟨rfl, rfl⟩ := run_pure_ok.mp ran
  have taken := (tableLabel_fills own).append
    ((planBatch?_fills keys).append (planJunction?_fills linked))
  refine taken.perm ?_
  rw [Table.labels, Table.keyLabels, List.flatMap_append, Table.junctionBatch?]
  -- The table's label is taken first and listed after the junction's.
  generalize (junction.map Junction.label).toList = j
  generalize batch.toList.flatMap Batch.labels = b
  generalize ((junction.bind Junction.batch).map JunctionBatch.keys).toList.flatMap Batch.labels = k
  have moved : (label :: (b ++ j)).Perm (j ++ label :: b) :=
    (List.perm_append_comm.cons label).trans List.perm_middle.symm
  simpa using moved.append_right k

end Tables

section Columns

theorem headNodes_labelled {typeName : String} {nodes : List Node}
    (ran : (headNodes cx typeName config t).run ns = .ok (nodes, ns')) :
    ∃ own, nodes = own ++ batchNodes t ∧ Labelled ns own ns' := by
  obtain ⟨identity, _, first, ran⟩ := run_bind_ok.mp ran
  obtain ⟨always, _, second, ran⟩ := run_bind_ok.mp ran
  obtain ⟨paging, _, third, ran⟩ := run_bind_ok.mp ran
  obtain ⟨rfl, rfl⟩ := run_pure_ok.mp ran
  have labelled := (identityNode_ok first).1.append (plainColumns_ok second).1
  exact ⟨_, rfl, labelled.append (pagingNodes_ok third).1⟩

theorem entries_batchNodes (t : Table) :
    (entries (batchNodes t)).map Prod.snd = t.ownKeyLabel := by
  unfold batchNodes Table.ownKeyLabel
  cases t.batchKeys? <;> rfl

/-- The columns of a batch have the label of its key only once more than the key itself. -/
theorem columnLabels_perm (t : Table) (own below : List Node) :
    (t.columnLabels (own ++ batchNodes t ++ below)).Perm
      ((entries own).map Prod.snd ++ (entries below).map Prod.snd) := by
  rw [Table.columnLabels, Node.entries_append, Node.entries_append, List.map_append,
    List.map_append, entries_batchNodes, Table.ownKeyLabel]
  cases t.batchKeys? with
  | none => simp
  | some keys =>
    simp only [Option.map_some, Option.toList_some, List.append_assoc, List.singleton_append,
      List.diff_cons, List.diff_nil]
    generalize (entries own).map Prod.snd = before
    generalize (entries below).map Prod.snd = after
    have moved : (before ++ keys.thisKey.label :: after).Perm
        (keys.thisKey.label :: (before ++ after)) := List.perm_middle
    simpa using moved.erase keys.thisKey.label

theorem Table.PlannedBy.fills {x : Selection} {field : Field Ctx} {type : ObjectType Ctx}
    {many : Bool} {head below : List Node} {ns₁ ns₂ : Namespace}
    (h : t.PlannedBy s cx x field type config many ns ns₁ head ns₂ below ns')
    (selected : Fills ns₂ ((entries below).map Prod.snd ++ labelsIn below) ns') :
    Fills ns (Node.labels (.table t (head ++ below))) ns' := by
  obtain ⟨_, planned⟩ := h.table
  obtain ⟨own, rfl, labelled⟩ := headNodes_labelled h.head
  have leaves := Node.labelsIn_leaves (headNodes_leaves h.head)
  have taken := (planTable_fills planned).append ((Fills.ofLabelled labelled).append selected)
  refine taken.perm ?_
  rw [Node.labels, Node.labelsIn_append, leaves, List.nil_append, ← List.append_assoc,
    ← List.append_assoc, List.append_assoc (t.labels ++ t.keyLabels)]
  exact ((columnLabels_perm t own below).symm.append_left _).append_right _

theorem Walk.fills {type : ObjectType Ctx} {xs : List Selection} {nodes : List Node}
    (h : Walk s cx type config t xs ns nodes ns') :
    Fills ns ((entries nodes).map Prod.snd ++ labelsIn nodes) ns' := by
  induction h with
  | nil => exact .nil
  | leaves steps _ later =>
    rw [Node.entries_append, Node.labelsIn_append, Node.labelsIn_leaves steps.leaves,
      List.nil_append, List.map_append, List.append_assoc]
    exact (Fills.ofLabelled steps.columns.1).append later
  | table _ _ planned _ _ selected later =>
    refine ((planned.fills selected).append later).perm ?_
    rw [labelsIn, ← List.append_assoc, ← List.append_assoc]
    exact List.perm_append_comm.append_right _

end Columns

/-- The key of a batch stands among its columns, under the label of the key. -/
def Table.FetchesKey (t : Table) (children : List Node) : Prop :=
  ∀ keys, t.batchKeys? = some keys → ∃ c : Column, .column c ∈ children ∧
    c.source = .name keys.thisKey.column ∧ c.label = keys.thisKey.label

theorem Table.Declared.fetchesKey {children : List Node} (h : t.Declared s cx children) :
    t.FetchesKey children := by
  cases h with
  | intro _ _ _ planned =>
    obtain ⟨own, rfl, _⟩ := headNodes_labelled planned.head
    intro keys batch
    let source := t.junctionBatch?.bind (fun _ => t.junction.map Junction.label)
    let own : Column := ⟨.name keys.thisKey.column, keys.thisKey.fieldName, keys.thisKey.label, true,
      source, t.location⟩
    have node : batchNodes t = [.column own] := by rw [batchNodes, batch]
    refine ⟨own, List.mem_append_left _ (List.mem_append_right _ ?_), rfl, rfl⟩
    rw [node]
    exact List.mem_singleton_self _

section Planned

variable {minify : Bool} {x : Selection} {root : Node}

theorem plan_fills (h : s.plan minify cx x = .ok root) : ∃ ns',
    (Namespace.start minify).Reaches ns' ∧ Fills (Namespace.start minify) root.labels ns' := by
  obtain ⟨ns', ran⟩ := plan_ok h
  rcases planRoot_steps ran with leaf | ⟨_, _, _, _, _, t, _, head, _, below, _, _, _, planned, rfl⟩
  · rw [Node.labels_leaf leaf]
    exact ⟨_, .refl, .nil⟩
  · exact ⟨ns', planned.reaches planned.walk.reaches, planned.fills planned.walk.fills⟩

theorem plan_labels_nodup (h : s.plan true cx x = .ok root) :
    (Namespace.reserved ++ root.labels).Nodup := by
  obtain ⟨ns', reached, fills⟩ := plan_fills h
  have distinct := reached.distinct (List.nodup_singleton _)
  have taken := (fills.used rfl).nodup_iff.mp distinct
  exact List.perm_append_comm.nodup_iff.mp taken

/-- Short labels are spelled without the underscores that separate those of nested tables. -/
theorem plan_labels_unbroken (h : s.plan true cx x = .ok root) :
    ∀ l ∈ root.labels, '_' ∉ l.toList := by
  obtain ⟨ns', reached, fills⟩ := plan_fills h
  intro l hl
  exact reached.unbroken rfl (by simp [Namespace.start, Namespace.reserved]) l
    ((fills.used rfl).mem_iff.mpr (List.mem_append_left _ hl))

/-- Whatever the response keys and the names of junctions are, no two tables or junctions of a plan
have one label and none has the reserved one. With short labels this holds of all labels, where the
column that is fetched for the key of a batch shares the label of the key. -/
theorem plan_labels_distinct (h : s.plan minify cx x = .ok root) :
    (Namespace.reserved ++ root.tableLabels).Nodup ∧
    (minify = true → (Namespace.reserved ++ root.labels).Nodup) ∧
    root.Everywhere Table.FetchesKey := by
  refine ⟨plan_tableLabels h, ?_, ?_⟩
  · rintro rfl
    exact plan_labels_nodup h
  · exact Node.everywhere_mono (fun _ _ declared => declared.fetchesKey) root (plan_declared h)

end Planned

end TreeQuery.Plan

namespace TreeQuery

section Catalog

/-- Links products to tags by a table that is called like a short label. -/
def namesake : JunctionConfig Unit where
  table := .ident "main.a"
  fromParent := none
  toChild := none
  filter := none
  orderBy := none
  sortKey := none
  batch := some ⟨"productId", "id", none⟩

def catalogTypes : List (ObjectType Unit) :=
  [.ofFields "Query" none queryFields,
    .ofFields "Product" (some (tableOf "products" "id")) [plainField "name" .scalar,
      { plainField "tags" (.object "Tag" true) with junction := some namesake }],
    .ofFields "Tag" (some (tableOf "tags" "id")) [plainField "id" .scalar]]

def catalog : Schema Unit := ⟨catalogTypes, .ofFields "Query" none queryFields⟩

/-- The tags of all products twice, under the least favourable names. -/
def catalogRequest : Selection :=
  ⟨"products", some "temp", .empty, [.leaf "name" (some "a"),
    ⟨"tags", some "", .empty, [.leaf "id" (some "b")]⟩,
    ⟨"tags", some "temp_1", .empty, [.leaf "id" none]⟩]⟩

def catalogLabels : List String :=
  ["a", "b", "c", "e", "d", "f", "g", "h", "i", "k", "j", "l", "m", "n", "o"]

theorem plan_labels_distinct_catalog : ∃ long short,
    catalog.plan false () catalogRequest = .ok long ∧
    catalog.plan true () catalogRequest = .ok short ∧
    long.tableLabels = ["temp_1", "a", "t", "a_1", "temp_1_1"] ∧
    ("temp" :: long.tableLabels).Nodup ∧
    short.labels = catalogLabels ∧
    ("temp" :: catalogLabels).Nodup ∧ short.Everywhere Plan.Table.FetchesKey := by
  obtain ⟨long, named, labels⟩ : ∃ long, catalog.plan false () catalogRequest = .ok long ∧
      long.tableLabels = ["temp_1", "a", "t", "a_1", "temp_1_1"] := ⟨_, rfl, rfl⟩
  have spelled : (catalog.plan true () catalogRequest).toOption.map Plan.Node.labels =
      some catalogLabels := by decide +kernel
  cases ran : catalog.plan true () catalogRequest with
  | error e => simp [ran, Except.toOption] at spelled
  | ok short =>
    rw [ran] at spelled
    have letters : short.labels = catalogLabels := Option.some.inj spelled
    obtain ⟨_, distinct, keys⟩ := Plan.plan_labels_distinct ran
    exact ⟨long, short, named, rfl, labels, (Plan.plan_labels_distinct named).1, letters,
      letters ▸ distinct rfl, keys⟩

end Catalog

end TreeQuery
