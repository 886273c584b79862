import TreeQuery.Proofs.Plan.Labels

/-!
The columns that the objects of a table have, by field and label: those that are fetched for the
table and the keys that its batches are matched by. Columns of one label are fields of one name. With
short labels no two columns share one, and otherwise the label of a column is its field's name.
-/

namespace TreeQuery.Plan

namespace Node

/-- The field and the label of the column that a node adds to the objects of its table. -/
def ownEntry? : Node → Option (String × String)
  | .table t _ => t.batchKeys?.map (fun keys => (keys.parentKey.fieldName, keys.parentKey.label))
  | n => n.entry?

def ownEntries (nodes : List Node) : List (String × String) := nodes.filterMap ownEntry?

theorem ownEntries_append (a b : List Node) : ownEntries (a ++ b) = ownEntries a ++ ownEntries b :=
  List.filterMap_append

theorem ownEntries_leaves {nodes : List Node} (leaves : Leaves nodes) :
    ownEntries nodes = entries nodes := by
  refine List.filterMap_congr (fun n hn => ?_)
  cases n with
  | table t children => cases leaves _ hn
  | column _ | composite _ | noop _ _ => rfl

mutual

theorem everywhere_labels_nodup : (n : Node) → (labels n).Nodup →
    n.Everywhere (fun t children => (labels (.table t children)).Nodup)
  | .table t children, h => by
    refine ⟨h, everywhereIn_labels_nodup children ?_⟩
    rw [labels] at h
    exact (List.nodup_append.mp h).2.1
  | .column _, _ | .composite _, _ | .noop _ _, _ => trivial

theorem everywhereIn_labels_nodup : (nodes : List Node) → (labelsIn nodes).Nodup →
    EverywhereIn (fun t children => (labels (.table t children)).Nodup) nodes
  | [], _ => trivial
  | n :: r, h => by
    obtain ⟨here, later, _⟩ := List.nodup_append.mp h
    exact ⟨everywhere_labels_nodup n here, everywhereIn_labels_nodup r later⟩

end

end Node

open Node (entries ownEntries labelsIn)

section Short

theorem count_entries (t : Table) (children : List Node) (a : String) :
    ((entries children).map Prod.snd).count a ≤
      t.keyLabels.count a + (t.columnLabels children).count a := by
  rw [Table.columnLabels]
  generalize (entries children).map Prod.snd = labels
  have own := t.ownKeyLabel_subset
  unfold Table.ownKeyLabel at own ⊢
  cases hk : t.batchKeys? with
  | none => exact Nat.le_add_left _ _
  | some keys =>
    rw [hk] at own
    have listed := List.singleton_sublist.mpr (own (List.mem_singleton_self keys.thisKey.label))
    have split : labels.Subperm ([keys.thisKey.label] ++ labels.diff [keys.thisKey.label]) := by
      simpa using List.subperm_cons_erase keys.thisKey.label labels
    have counted := split.count_le a
    rw [List.count_append] at counted
    exact Nat.le_trans counted (Nat.add_le_add_right (listed.count_le a) _)

theorem count_ownEntries (children : List Node) (a : String) :
    ((ownEntries children).map Prod.snd).count a ≤
      ((entries children).map Prod.snd).count a + (labelsIn children).count a := by
  induction children with
  | nil => exact Nat.zero_le _
  | cons n children inductionHypothesis =>
    have here : (n.ownEntry?.toList.map Prod.snd).count a ≤
        (n.entry?.toList.map Prod.snd).count a + n.labels.count a := by
      cases n with
      | table u below =>
        cases hk : u.batchKeys? with
        | none => simp [Node.ownEntry?, hk]
        | some keys =>
          have key := List.singleton_sublist.mpr (Node.parentKey_mem u below hk)
          have once := key.count_le a
          simpa [Node.ownEntry?, Node.entry?, hk] using once
      | column _ | composite _ | noop _ _ => exact Nat.le_add_right _ _
    have cons (f : Node → Option (String × String)) : ((n :: children).filterMap f).map Prod.snd =
        (f n).toList.map Prod.snd ++ (children.filterMap f).map Prod.snd := by
      rw [List.filterMap_cons]
      cases f n <;> rfl
    rw [ownEntries, entries, cons, cons, labelsIn, List.count_append, List.count_append,
      List.count_append]
    rw [ownEntries, entries] at inductionHypothesis
    omega

/-- No two columns of a table have one label if all labels differ. -/
theorem ownEntries_nodup {t : Table} {children : List Node}
    (distinct : (Node.labels (.table t children)).Nodup) :
    ((ownEntries children).map Prod.snd).Nodup := by
  rw [List.nodup_iff_count_le_one]
  intro a
  have once := List.nodup_iff_count_le_one.mp distinct a
  rw [Node.labels, List.count_append, List.count_append, List.count_append] at once
  have fetched := count_entries t children a
  have all := count_ownEntries children a
  omega

end Short

section Long

/-- The keys of a batch have the labels of their fields. -/
structure Batch.Named (keys : Batch) : Prop where
  thisKey : keys.thisKey.label = keys.thisKey.fieldName
  parentKey : keys.parentKey.label = keys.parentKey.fieldName

variable {Ctx : Type} {s : Schema Ctx} {cx : Ctx} {config : TableConfig Ctx} {t : Table}
variable {ns ns' : Namespace}

theorem batchKey_named {column : String} {key : BatchKey} (long : ns.minify = false)
    (ran : (batchKey column).run ns = .ok (key, ns')) : key.label = key.fieldName := by
  obtain ⟨label, _, taken, ran⟩ := run_bind_ok.mp ran
  obtain ⟨rfl, rfl⟩ := run_pure_ok.mp ran
  have spec := Namespace.takeColumn_spec (Except.ok.inj taken)
  simpa [long] using spec.2

theorem planKeys_named {thisKey parentKey : String} {keys : Batch} (long : ns.minify = false)
    (ran : (planKeys thisKey parentKey).run ns = .ok (keys, ns')) : keys.Named := by
  obtain ⟨this, ns₁, first, ran⟩ := run_bind_ok.mp ran
  obtain ⟨parent, ns₂, later, ran⟩ := run_bind_ok.mp ran
  obtain ⟨rfl, rfl⟩ := run_pure_ok.mp ran
  exact ⟨batchKey_named long first, batchKey_named ((batchKey_fills first).minify.trans long) later⟩

theorem planBatch?_named {c : Option BatchConfig} {b : Option Batch} (long : ns.minify = false)
    (ran : (planBatch? c).run ns = .ok (b, ns')) : ∀ keys ∈ b, keys.Named := by
  cases c with
  | none =>
    obtain ⟨rfl, rfl⟩ := run_pure_ok.mp ran
    nofun
  | some c =>
    obtain ⟨keys, _, first, ran⟩ := run_bind_ok.mp ran
    obtain ⟨rfl, rfl⟩ := run_pure_ok.mp ran
    rintro _ ⟨⟩
    exact planKeys_named long first

theorem planJunction?_named {args : Arguments} {c : Option (JunctionConfig Ctx)}
    {j : Option Junction} (long : ns.minify = false)
    (ran : (planJunction? args cx c).run ns = .ok (j, ns')) :
    ∀ b ∈ j.bind Junction.batch, b.keys.Named := by
  cases c with
  | none =>
    obtain ⟨rfl, rfl⟩ := run_pure_ok.mp ran
    nofun
  | some c =>
    obtain ⟨label, ns₁, first, ran⟩ := run_bind_ok.mp ran
    obtain ⟨batch, ns₂, later, ran⟩ := run_bind_ok.mp ran
    obtain ⟨rfl, rfl⟩ := run_pure_ok.mp ran
    have long' := (tableLabel_fills first).minify.trans long
    intro b hb
    cases hc : c.batch with
    | none =>
      rw [hc] at later
      obtain ⟨rfl, rfl⟩ := run_pure_ok.mp later
      cases hb
    | some config =>
      rw [hc] at later
      obtain ⟨keys, _, made, later⟩ := run_bind_ok.mp later
      obtain ⟨rfl, rfl⟩ := run_pure_ok.mp later
      cases hb
      exact planKeys_named long' made

theorem planTable_named {field : Field Ctx} {many : Bool} {key : String} {args : Arguments}
    {l : Location} (long : ns.minify = false)
    (ran : (planTable cx field config many key args l).run ns = .ok (t, ns')) :
    ∀ keys, t.batchKeys? = some keys → keys.Named := by
  obtain ⟨label, ns₁, own, ran⟩ := run_bind_ok.mp ran
  obtain ⟨batch, ns₂, keyed, ran⟩ := run_bind_ok.mp ran
  obtain ⟨junction, ns₃, linked, ran⟩ := run_bind_ok.mp ran
  obtain ⟨rfl, rfl⟩ := run_pure_ok.mp ran
  have long₁ := (tableLabel_fills own).minify.trans long
  have long₂ := (planBatch?_fills keyed).minify.trans long₁
  intro keys batched
  rcases Option.or_eq_some_iff.mp batched with first | ⟨_, through⟩
  · exact planBatch?_named long₁ keyed keys first
  · obtain ⟨b, found, rfl⟩ := Option.map_eq_some_iff.mp through
    exact planJunction?_named long₂ linked b found

/-- The columns below a table have the labels of their fields. -/
def Named (_t : Table) (children : List Node) : Prop := ∀ e ∈ ownEntries children, e.2 = e.1

theorem named_append {a b : List Node} : Named t (a ++ b) ↔ Named t a ∧ Named t b := by
  rw [Named, Node.ownEntries_append, List.forall_mem_append]
  rfl

theorem Labelled.named {nodes : List Node} (h : Labelled ns nodes ns') (leaves : Leaves nodes)
    (long : ns.minify = false) : Named t nodes := by
  rw [Named, Node.ownEntries_leaves leaves]
  exact h.long long

theorem Table.PlannedBy.named {x : Selection} {field : Field Ctx} {type : ObjectType Ctx}
    {many : Bool} {head below : List Node} {ns₁ ns₂ : Namespace} (long : ns.minify = false)
    (h : t.PlannedBy s cx x field type config many ns ns₁ head ns₂ below ns') :
    ns₂.minify = false ∧ Named t head ∧ ∀ keys, t.batchKeys? = some keys → keys.Named := by
  obtain ⟨_, planned⟩ := h.table
  have long₁ := (planTable_fills planned).minify.trans long
  have keyed := planTable_named long planned
  have leaves := headNodes_leaves h.head
  refine ⟨((headNodes_onlyTakes _).reached h.head).minify.trans long₁, ?_, keyed⟩
  obtain ⟨own, rfl, labelled⟩ := headNodes_labelled h.head
  obtain ⟨first, later⟩ := List.forall_mem_append.mp leaves
  refine named_append.mpr ⟨labelled.named first long₁, ?_⟩
  rw [Named, Node.ownEntries_leaves later, batchNodes]
  cases hk : t.batchKeys? with
  | none => exact List.forall_mem_nil _
  | some keys => exact List.forall_mem_singleton.mpr (keyed keys hk).thisKey

theorem Walk.named {type : ObjectType Ctx} {xs : List Selection} {nodes : List Node}
    (h : Walk s cx type config t xs ns nodes ns') (long : ns.minify = false) :
    Named t nodes ∧ Node.EverywhereIn Named nodes := by
  induction h with
  | nil => exact ⟨nofun, trivial⟩
  | leaves steps _ later =>
    obtain ⟨others, below⟩ := later (steps.reaches.minify.trans long)
    exact ⟨named_append.mpr ⟨steps.columns.1.named steps.leaves long, others⟩,
      Node.everywhereIn_append.mpr ⟨Node.everywhereIn_of_leaves steps.leaves, below⟩⟩
  | @table _ _ _ _ _ child _ _ _ _ _ head inner rest _ _ _ _ _ _ _ planned walk _ selected later =>
    obtain ⟨long₂, own, keyed⟩ := planned.named long
    have long₃ := walk.reaches.minify.trans long₂
    obtain ⟨asked, inside⟩ := selected long₂
    obtain ⟨others, after⟩ := later long₃
    have key : Named child [.table child (head ++ inner)] := by
      intro e he
      obtain ⟨n, hn, entry⟩ := List.mem_filterMap.mp he
      obtain rfl := List.mem_singleton.mp hn
      obtain ⟨keys, batch, rfl⟩ := Option.map_eq_some_iff.mp entry
      exact (keyed keys batch).parentKey
    have leaves := headNodes_leaves planned.head
    exact ⟨named_append.mpr ⟨key, others⟩, ⟨named_append.mpr ⟨own, asked⟩,
      Node.everywhereIn_append.mpr ⟨Node.everywhereIn_of_leaves leaves, inside⟩⟩, after⟩

theorem plan_named {x : Selection} {root : Node} (h : s.plan false cx x = .ok root) :
    root.Everywhere Named := by
  obtain ⟨ns', ran⟩ := plan_ok h
  rcases planRoot_steps ran with leaf | ⟨_, _, _, _, _, t, _, head, _, below, _, _, _, planned, rfl⟩
  · exact (Node.everywhereIn_of_leaves (leaves_cons leaf leaves_nil)).1
  · obtain ⟨long, own, _⟩ := planned.named rfl
    obtain ⟨asked, inside⟩ := planned.walk.named long
    exact ⟨named_append.mpr ⟨own, asked⟩, Node.everywhereIn_append.mpr
      ⟨Node.everywhereIn_of_leaves (headNodes_leaves planned.head), inside⟩⟩

end Long

section Both

variable {Ctx : Type} {s : Schema Ctx} {cx : Ctx}

/-- Columns of one table and label are fields of one name. -/
def FieldOfLabel (_t : Table) (children : List Node) : Prop :=
  ∀ e ∈ ownEntries children, ∀ e' ∈ ownEntries children, e.2 = e'.2 → e.1 = e'.1

theorem plan_fieldOfLabel {minify : Bool} {x : Selection} {root : Node}
    (h : s.plan minify cx x = .ok root) : root.Everywhere FieldOfLabel := by
  cases minify with
  | false =>
    refine Node.everywhere_mono ?_ root (plan_named h)
    intro t children named e he e' he' same
    rw [← named e he, ← named e' he', same]
  | true =>
    have distinct := (List.nodup_append.mp (plan_labels_nodup h)).2.1
    refine Node.everywhere_mono ?_ root (Node.everywhere_labels_nodup root distinct)
    intro t children apart e he e' he' same
    exact congrArg Prod.fst (List.inj_on_of_nodup_map (ownEntries_nodup apart) he he' same)

end Both

end TreeQuery.Plan
