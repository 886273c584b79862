import TreeQuery.Proofs.Execution.Visits

/-!
A run issues the statement of the root, and one for each batch boundary at most, however many rows
come back. What a statement asks for are the keys of the objects that are live above its boundary.
-/

namespace TreeQuery

namespace Execution

open Connection (Trimmed TrimmedIn TrimmedItem)
open Plan (Node Table)
open Value (itemObjects)

section Held

variable {name other : String} {objects : List (Fields Value)}

theorem heldIn_map_insert (apart : name ≠ other) (f : Fields Value → Value) :
    heldIn name (objects.map (fun o => Fields.insert o other (f o))) = heldIn name objects := by
  rw [heldIn, heldIn, List.filterMap_map]
  apply List.filterMap_congr
  intro o _
  rw [Function.comp_apply, Fields.get?_insert, if_neg (Ne.symm apart)]

/-- What batches attach is not looked at from another field. -/
theorem heldIn_attachAll {fetched : Fetched}
    (apart : ∀ f ∈ fetched, name ≠ f.1.fieldName) :
    heldIn name (Batch.attachAll fetched objects) = heldIn name objects := by
  induction fetched generalizing objects with
  | nil => rfl
  | cons f fetched inductionHypothesis =>
    obtain ⟨here, later⟩ := List.forall_mem_cons.mp apart
    rw [Batch.attachAll, inductionHypothesis later, heldIn_map_insert here]

theorem heldIn_cons (o : Fields Value) :
    heldIn name (o :: objects) = (Fields.get? o name).toList ++ heldIn name objects := by
  rw [heldIn, List.filterMap_cons]
  cases Fields.get? o name <;> rfl

theorem heldIn_putField (apart : name ≠ other) (values : List Value) :
    heldIn name (putField other objects values) = heldIn name objects := by
  induction objects generalizing values with
  | nil => rfl
  | cons o objects inductionHypothesis =>
    cases values with
    | nil =>
      rw [putField]
      split <;> rw [heldIn_cons, heldIn_cons, inductionHypothesis]
    | cons v values =>
      rw [putField]
      split
      · rw [heldIn_cons, heldIn_cons, inductionHypothesis, Fields.get?_insert,
          if_neg (Ne.symm apart)]
      · rw [heldIn_cons, heldIn_cons, inductionHypothesis]

/-- The values of a joined table are trimmed in trimmed objects. -/
theorem trimmed_heldIn {nodes children : List Node} {t : Table}
    (trimmed : ∀ o ∈ objects, TrimmedIn nodes o) (member : .table t children ∈ nodes)
    (single : t.isBatch = false) :
    ∀ w ∈ heldIn t.fieldName objects, Trimmed (.table t children) w := by
  intro w held
  obtain ⟨o, among, read⟩ := List.mem_filterMap.mp held
  exact Connection.trimmedIn_iff.mp (trimmed o among) t children member single w read

theorem trimmed_itemObjects {children : List Node} {t : Table} {values : List Value}
    (trimmed : ∀ w ∈ values, Trimmed (.table t children) w) :
    ∀ o ∈ itemObjects values, TrimmedIn children o := by
  intro o member
  obtain ⟨w, among, within⟩ := Value.mem_itemObjects.mp member
  exact (trimmed w among).2 o within

/-- The joined tables among the nodes have in some objects the values that they have in the live
objects, and no other table under their names was gone into. -/
structure Untouched (nodes : List Node) (seen : List String)
    (objects live : List (Fields Value)) : Prop where
  apart : (Node.joinedNames nodes).Nodup
  unseen : ∀ name ∈ Node.joinedNames nodes, name ∉ seen
  held : ∀ name ∈ Node.joinedNames nodes, heldIn name objects = heldIn name live
  trimmed : ∀ o ∈ live, TrimmedIn nodes o

namespace Untouched

variable {n : Node} {nodes children : List Node} {t : Table} {seen : List String}
variable {live : List (Fields Value)}

theorem later (h : Untouched (n :: nodes) seen objects live) :
    Untouched nodes seen objects live := by
  have fewer : (Node.joinedNames nodes).Sublist (Node.joinedNames (n :: nodes)) :=
    (List.sublist_cons_self n nodes).filterMap _
  constructor
  · exact fewer.nodup h.apart
  · exact fun name member => h.unseen name (fewer.subset member)
  · exact fun name member => h.held name (fewer.subset member)
  · intro o member
    apply Connection.trimmedIn_iff.mpr
    intro t children among
    exact Connection.trimmedIn_iff.mp (h.trimmed o member) t children (List.mem_cons_of_mem _ among)

/-- Other tables stay untouched when a table's values are put back. -/
theorem putField (h : Untouched (.table t children :: nodes) seen objects live)
    (single : t.isBatch = false) (values : List Value) :
    Untouched nodes (t.fieldName :: seen) (putField t.fieldName objects values) live := by
  have names := h.apart
  rw [Node.joinedNames_table, if_neg (by simp [single]), List.nodup_cons] at names
  have other (name : String) (member : name ∈ Node.joinedNames nodes) : name ≠ t.fieldName :=
    fun same => names.1 (same ▸ member)
  constructor
  · exact names.2
  · intro name member seen
    cases seen with
    | head => exact other t.fieldName member rfl
    | tail _ seen => exact h.later.unseen name member seen
  · intro name member
    exact (heldIn_putField (other name member) values).trans (h.later.held name member)
  · exact h.later.trimmed

end Untouched

end Held

variable {σ : Type} {fl : Sql.Flavor} {d : Driver σ} {s s' : Session σ}
variable {t : Table} {children nodes : List Node}

section Groups

theorem fetch_hydrated {n : Node} {scope : Option (List Value)} {items : List Value}
    (fetched : fetch fl d n scope s = (.ok items, s')) :
    ∃ shape rows, Shape.ofNode "" n = .ok shape ∧ Hydration.objects shape rows = .ok items := by
  obtain ⟨_, _, _, fetched⟩ := Run.bind_ok.mp fetched
  obtain ⟨shape, _, shaped, fetched⟩ := Run.bind_ok.mp fetched
  obtain ⟨rows, _, _, hydrated⟩ := Run.bind_ok.mp fetched
  exact ⟨shape, rows, mapError_eq_ok.mp (Run.ofExcept_ok.mp shaped).1,
    (Run.ofExcept_ok.mp hydrated).1⟩

theorem Returned.trimmed {scope : List Key} {items : List Value}
    (apart : (Node.table t children).Everywhere Table.JoinsApart)
    (returned : Returned fl d t children scope s items s') :
    ∀ v ∈ items, TrimmedItem children v := by
  intro v member
  rw [Returned] at returned
  split at returned
  · rw [returned.1] at member
    cases member
  · obtain ⟨hydrated, fetched, converted⟩ := returned
    obtain ⟨shape, rows, shaped, read⟩ := fetch_hydrated fetched
    obtain ⟨w, among, made⟩ := (mem_of_mapM_ok converted).mp member
    obtain ⟨o, rfl, within⟩ := Hydration.hydratesIn_objects apart.1 shaped read w among
    exact (Connection.trimmed_convertChildren children apart.1 apart.2 within made).1

theorem trimmed_groupValue {items : List Value} {w : Value}
    (all : ∀ v ∈ items, TrimmedItem children v) (made : groupValue t items = .ok w) :
    Trimmed (.table t children) w := by
  rw [groupValue] at made
  split at made
  · exact Connection.trimmed_ofItems all made
  · cases made
    exact Connection.trimmed_list all

theorem trimmed_groupValues {grouping : Grouping Key Value} {groups : Groups}
    (all : ∀ g ∈ grouping, ∀ v ∈ g.2, TrimmedItem children v)
    (made : groupValues t grouping = .ok groups) :
    ∀ w ∈ groups.map Prod.snd, Trimmed (.table t children) w := by
  induction grouping generalizing groups with
  | nil =>
    cases made
    simp
  | cons g grouping inductionHypothesis =>
    obtain ⟨here, later⟩ := List.forall_mem_cons.mp all
    obtain ⟨v, value, made⟩ := bind_eq_ok.mp made
    obtain ⟨rest, others, made⟩ := bind_eq_ok.mp made
    cases made
    rw [List.map_cons]
    exact List.forall_mem_cons.mpr
      ⟨trimmed_groupValue here value, inductionHypothesis later others⟩

theorem mem_ofItems {keyField : String} {items : List Value} {g : Key × List Value}
    (member : g ∈ Groups.ofItems keyField items) : g.2 ⊆ items := by
  rw [Groups.ofItems, Grouping.ofPairs_eq] at member
  obtain ⟨k, _, rfl⟩ := List.mem_map.mp member
  intro v among
  obtain ⟨pair, kept, rfl⟩ := List.mem_map.mp among
  obtain ⟨w, own, keyed⟩ := List.mem_filterMap.mp (List.mem_of_mem_filter kept)
  obtain ⟨_, _, rfl⟩ := Option.map_eq_some_iff.mp keyed
  exact own

/-- What a boundary fetches is what its statement returned, put into groups that are trimmed. -/
theorem fetchGroups_trimmed {keys : Plan.Batch} {scope : List Key} {groups : Groups}
    (matched : t.batchKeys? = some keys) (keyed : scope ≠ [])
    (apart : (Node.table t children).Everywhere Table.JoinsApart)
    (fetched : fetchGroups fl d t children scope s = (.ok groups, s')) :
    (∃ items, Returned fl d t children scope s items s' ∧
      groupValues t (Groups.ofItems keys.thisKey.fieldName items) = .ok groups) ∧
    (∃ q, s'.issued = s.issued ++ [q]) ∧
    ∀ w ∈ groups.map Prod.snd, Trimmed (.table t children) w := by
  obtain ⟨hydrated, items, read, converted, grouped⟩ := fetchGroups_ok matched fetched
  obtain ⟨q, _, reached⟩ := fetch_issued read
  have returned : Returned fl d t children scope s items s' := by
    rw [Returned, if_neg (by simpa using keyed)]
    exact ⟨hydrated, read, converted⟩
  refine ⟨⟨items, returned, grouped⟩, ⟨q, reached⟩, ?_⟩
  apply trimmed_groupValues _ grouped
  intro g member v among
  exact returned.trimmed apart v (mem_ofItems member among)

end Groups

namespace Visits

/-- There is nothing to come to if no node is a batch boundary or has one below. -/
theorem quiet (unbatched : Node.anyBatch nodes = false) (part : Part)
    (objects : List (Fields Value)) (s : Session σ) : Visits fl d part nodes objects s [] s := by
  induction nodes with
  | nil => exact .nil
  | cons n nodes inductionHypothesis =>
    rw [Node.anyBatch, Bool.or_eq_false_iff, Bool.or_eq_false_iff] at unbatched
    obtain ⟨⟨own, below⟩, later⟩ := unbatched
    apply Visits.skip _ (inductionHypothesis later)
    cases part <;> simp [Part.concerns, Node.isJoinedToBatch, own, below]

/-- No statement is issued for a boundary whose live parents have no key. -/
theorem unneeded {objects : List (Fields Value)} {inner rest : List Visit} (batch : t.isBatch)
    (keyless : Batch.scope t objects = []) (inside : Visits fl d .both children [] s inner s)
    (later : Visits fl d .batches nodes objects s rest s') :
    Visits fl d .batches (.table t children :: nodes) objects s
      (⟨t, children, objects, []⟩ :: (inner ++ rest)) s' := by
  obtain ⟨keys, matched⟩ := Option.isSome_iff_exists.mp (t.isBatch_eq ▸ batch)
  have returned : Returned fl d t children (Batch.scope t objects) s [] s := by
    rw [keyless]
    exact ⟨rfl, rfl⟩
  have reached : s.issued = s.issued ++ [] := (List.append_nil _).symm
  have grouped : groupValues t (Groups.ofItems keys.thisKey.fieldName []) = .ok [] := rfl
  exact .batch matched returned reached grouped nofun inside later

/-- Without live objects a run comes to the boundaries and does nothing. -/
theorem absent (s : Session σ) : (nodes : List Node) →
    (∃ log, Visits fl d .batches nodes [] s log s) ∧ ∃ log, Visits fl d .joined nodes [] s log s
  | [] => ⟨⟨[], .nil⟩, ⟨[], .nil⟩⟩
  | .table t children :: r => by
    obtain ⟨⟨first, batches⟩, ⟨rest, joined⟩⟩ := absent s children
    have inside : Visits fl d .both children [] s (first ++ rest) s := .both batches joined
    obtain ⟨⟨laterBatches, batches⟩, ⟨laterJoined, joined⟩⟩ := absent s r
    cases batch : t.isBatch with
    | false =>
      constructor
      · exact ⟨_, .skip batch batches⟩
      · exact ⟨_, .joined batch nofun inside joined⟩
    | true =>
      constructor
      · exact ⟨_, .unneeded batch rfl inside batches⟩
      · refine ⟨_, .skip ?_ joined⟩
        simp [Part.concerns, Node.isJoinedToBatch, Node.isBatch, batch]
  | .column _ :: r | .composite _ :: r | .noop _ _ :: r => by
    obtain ⟨⟨laterBatches, batches⟩, ⟨laterJoined, joined⟩⟩ := absent s r
    constructor
    · exact ⟨_, .skip rfl batches⟩
    · exact ⟨_, .skip rfl joined⟩

end Visits

theorem onValues_ok {f : List (Fields Value) → Task σ (List (Fields Value))}
    {values values' : List Value} (ran : onValues f values s = (.ok values', s')) :
    ∃ out, f (itemObjects values) s = (.ok out, s') := by
  obtain ⟨out, s₁, changed, ran⟩ := Run.bind_ok.mp ran
  have same := Run.pure_ok.mp ran
  exact ⟨out, same.2 ▸ changed⟩

/-- Inside the groups of a boundary a run comes to something only if there are batches below. -/
theorem onGroups_visits {made : Groups} {groups : Option Groups}
    (completes : ∀ {out s'}, complete fl d (.table t children) (itemObjects (made.map Prod.snd)) s =
      (.ok out, s') →
      ∃ log, Visits fl d .both children (itemObjects (made.map Prod.snd)) s log s')
    (ran : (if Node.anyBatch children then
        some <$> onGroups (complete fl d (.table t children)) made
      else return some made : Task σ (Option Groups)) s = (.ok groups, s')) :
    ∃ log, Visits fl d .both children (itemObjects (made.map Prod.snd)) s log s' := by
  split at ran
  · obtain ⟨grown, s₁, within, ran⟩ := Run.bind_ok.mp ran
    obtain ⟨_, rfl⟩ := Run.pure_ok.mp ran
    obtain ⟨values, s₂, changed, within⟩ := Run.bind_ok.mp within
    obtain ⟨_, rfl⟩ := Run.pure_ok.mp within
    obtain ⟨out, completed⟩ := onValues_ok changed
    exact completes completed
  · rename_i unbatched
    obtain ⟨_, rfl⟩ := Run.pure_ok.mp ran
    exact ⟨[], .quiet (by simpa using unbatched) ..⟩

/-- Only batches among the nodes are fetched. -/
theorem fetched_tables {w : Run.Waiting} {objects : List (Fields Value)} {fetched : Fetched}
    (ran : fetchBatches fl d w nodes objects s = (.ok fetched, s')) :
    ∀ f ∈ fetched, f.1 ∈ Node.tables nodes ∧ f.1.isBatch := by
  induction nodes generalizing s s' fetched with
  | nil =>
    obtain ⟨rfl, _⟩ := Run.pure_ok.mp ran
    simp
  | cons n nodes inductionHypothesis =>
    match n with
    | .table t children =>
      have within (f : Table × Option Groups) (h : f.1 ∈ Node.tables nodes ∧ f.1.isBatch) :
          f.1 ∈ Node.tables (.table t children :: nodes) ∧ f.1.isBatch :=
        ⟨List.mem_cons_of_mem _ h.1, h.2⟩
      rw [fetchBatches] at ran
      split at ran
      · rename_i batch
        obtain ⟨groups, s₁, _, ran⟩ := Run.beside_ok.mp ran
        obtain ⟨rest, s₂, later, ran⟩ := Run.bind_ok.mp ran
        obtain ⟨rfl, _⟩ := Run.pure_ok.mp ran
        intro f member
        cases member with
        | head => exact ⟨List.mem_cons_self .., batch⟩
        | tail _ member => exact within f (inductionHypothesis later f member)
      · exact fun f member => within f (inductionHypothesis ran f member)
    | .column _ | .composite _ | .noop _ _ => exact inductionHypothesis ran

mutual

/-- Whatever completes the objects of a table goes through its children with these objects. -/
theorem complete_visits : (n : Node) → n.Everywhere Table.TablesApart →
    {objects out : List (Fields Value)} → {s s' : Session σ} →
    (∀ o ∈ objects, TrimmedIn n.children o) → complete fl d n objects s = (.ok out, s') →
    ∃ log, Visits fl d .both n.children objects s log s'
  | .table t children, apart, objects, out, s, s', trimmed, ran => by
    obtain ⟨fetched, s₁, batched, ran⟩ := Run.bind_ok.mp ran
    obtain ⟨first, batches⟩ := fetchBatches_visits _ children apart.2 batched
    have tables := fetched_tables batched
    -- Batches are attached under names of their own, so the joined tables are as they were.
    have held (name : String) (member : name ∈ Node.joinedNames children) :
        heldIn name (Batch.attachAll fetched objects) = heldIn name objects := by
      apply heldIn_attachAll
      rintro f among rfl
      exact apart.1.batch_apart (tables f among).1 (tables f among).2 member
    have untouched : Untouched children [] (Batch.attachAll fetched objects) objects :=
      ⟨apart.1.joinsApart, fun _ _ => List.not_mem_nil, held, trimmed⟩
    obtain ⟨rest, joined⟩ := runJoined_visits _ children apart.2 untouched ran
    exact ⟨first ++ rest, .both batches joined⟩
  | .column _, _, _, _, _, _, _, ran | .composite _, _, _, _, _, _, _, ran
  | .noop _ _, _, _, _, _, _, _, ran => by
    obtain ⟨_, rfl⟩ := Run.pure_ok.mp ran
    exact ⟨[], .nil⟩

theorem fetchBatches_visits (w : Run.Waiting) : (nodes : List Node) →
    Node.EverywhereIn Table.TablesApart nodes → {objects : List (Fields Value)} →
    {fetched : Fetched} → {s s' : Session σ} →
    fetchBatches fl d w nodes objects s = (.ok fetched, s') →
    ∃ log, Visits fl d .batches nodes objects s log s'
  | [], _, _, _, _, _, ran => by
    obtain ⟨_, rfl⟩ := Run.pure_ok.mp ran
    exact ⟨[], .nil⟩
  | .table t children :: r, apart, objects, fetched, s, s', ran => by
    rw [fetchBatches] at ran
    split at ran
    · rename_i batch
      obtain ⟨groups, s₁, own, ran⟩ := Run.beside_ok.mp ran
      obtain ⟨others, s₂, later, ran⟩ := Run.bind_ok.mp ran
      obtain ⟨_, rfl⟩ := Run.pure_ok.mp ran
      obtain ⟨rest, later⟩ := fetchBatches_visits w r apart.2 later
      split at own
      · rename_i empty
        obtain ⟨_, rfl⟩ := Run.pure_ok.mp own
        obtain ⟨⟨_, batches⟩, ⟨_, joined⟩⟩ := Visits.absent s children
        exact ⟨_, .unneeded batch (List.isEmpty_iff.mp empty) (.both batches joined) later⟩
      · rename_i keyed
        obtain ⟨keys, matched⟩ := Option.isSome_iff_exists.mp (t.isBatch_eq ▸ batch)
        obtain ⟨made, s₃, got, own⟩ := Run.bind_ok.mp own
        have joins := Node.everywhere_mono (fun _ _ tables => tables.joinsApart) _ apart.1
        obtain ⟨⟨items, returned, grouped⟩, ⟨q, reached⟩, values⟩ :=
          fetchGroups_trimmed matched (mt List.isEmpty_iff.mpr keyed) joins got
        obtain ⟨inner, inside⟩ := onGroups_visits (fun completed =>
          complete_visits (.table t children) apart.1 (trimmed_itemObjects values) completed) own
        exact ⟨_, .batch matched returned reached grouped (fun w member => (values w member).1)
          inside later⟩
    · rename_i single
      obtain ⟨log, later⟩ := fetchBatches_visits w r apart.2 ran
      exact ⟨log, .skip (by simpa [Part.concerns, Node.isBatch] using single) later⟩
  | .column _ :: r, apart, _, _, _, _, ran | .composite _ :: r, apart, _, _, _, _, ran
  | .noop _ _ :: r, apart, _, _, _, _, ran => by
    obtain ⟨log, later⟩ := fetchBatches_visits w r apart.2 ran
    exact ⟨log, .skip rfl later⟩

/-- What is changed on the way leaves the tables that are still to come as they were. -/
theorem runJoined_visits (w : Run.Waiting) : (nodes : List Node) →
    Node.EverywhereIn Table.TablesApart nodes → {seen : List String} →
    {objects live out : List (Fields Value)} → {s s' : Session σ} →
    Untouched nodes seen objects live → runJoined fl d w seen nodes objects s = (.ok out, s') →
    ∃ log, Visits fl d .joined nodes live s log s'
  | [], _, _, _, _, _, _, _, _, ran => by
    obtain ⟨_, rfl⟩ := Run.pure_ok.mp ran
    exact ⟨[], .nil⟩
  | .table t children :: r, apart, seen, objects, live, out, s, s', untouched, ran => by
    rw [runJoined] at ran
    split at ran
    · rename_i skipped
      obtain ⟨log, later⟩ := runJoined_visits w r apart.2 untouched.later ran
      refine ⟨log, .skip ?_ later⟩
      cases batch : t.isBatch with
      | true => simp [Part.concerns, Node.isJoinedToBatch, Node.isBatch, batch]
      | false =>
        have unseen := untouched.unseen _ (Node.mem_joinedNames (List.mem_cons_self ..) batch)
        have unbatched : Node.anyBatch children = false := by simpa [batch, unseen] using skipped
        simp [Part.concerns, Node.isJoinedToBatch, Node.hasBatchBelow, unbatched]
    · rename_i entered
      have single : t.isBatch = false := by
        cases batch : t.isBatch with
        | false => rfl
        | true => simp [batch] at entered
      obtain ⟨changed, s₁, own, ran⟩ := Run.beside_ok.mp ran
      obtain ⟨values', s₂, grown, own⟩ := Run.bind_ok.mp own
      obtain ⟨rfl, rfl⟩ := Run.pure_ok.mp own
      obtain ⟨_, completed⟩ := onValues_ok grown
      have held := untouched.held _ (Node.mem_joinedNames (List.mem_cons_self ..) single)
      have values := trimmed_heldIn untouched.trimmed (List.mem_cons_self ..) single
      rw [show objects.filterMap (fun o => Fields.get? o t.fieldName) = _ from held] at completed
      obtain ⟨inner, inside⟩ :=
        complete_visits (.table t children) apart.1 (trimmed_itemObjects values) completed
      obtain ⟨rest, later⟩ := runJoined_visits w r apart.2 (untouched.putField single values') ran
      exact ⟨_, .joined single (fun w member => (values w member).1) inside later⟩
  | .column _ :: r, apart, _, _, _, _, _, _, untouched, ran
  | .composite _ :: r, apart, _, _, _, _, _, _, untouched, ran
  | .noop _ _ :: r, apart, _, _, _, _, _, _, untouched, ran => by
    obtain ⟨log, later⟩ := runJoined_visits w r apart.2 untouched.later ran
    exact ⟨log, .skip rfl later⟩

end

/-- A run of the plan of a table that issued the statement of the root, and then came to some batch
boundaries. -/
structure BatchedRun (fl : Sql.Flavor) (d : Driver σ) (t : Table) (children : List Node)
    (s : Session σ) (q : Sql.Query) (log : List Visit) (s' : Session σ) : Prop where
  root : Sql.compile fl (.table t children) none = .ok q
  /-- Of a table that is not of many, only the first object is held, and of a page, no more than
  was asked for. -/
  live : ∃ items value s₁, fetch fl d (.table t children) none s = (.ok items, s₁) ∧
    Connection.convert (.table t children)
      (if t.many || t.paginate then .list items else items.headD .null) = .ok value ∧
    ((t.many || t.paginate) = false → value.objects.length ≤ 1) ∧ t.Cut value ∧
    Visits fl d .both children value.objects s₁ log s'
  /-- The run comes to every boundary of the plan, and only once. -/
  once : (log.map Visit.boundary).Perm (Node.boundariesIn children)
  disciplined : ∀ v ∈ log, v.Disciplined fl
  issued : s'.issued = s.issued ++ q :: log.flatMap Visit.issued

theorem length_flatMap_issued {log : List Visit} (disciplined : ∀ v ∈ log, v.Disciplined fl) :
    (log.flatMap Visit.issued).length ≤ log.length := by
  induction log with
  | nil => exact Nat.le_refl 0
  | cons v log inductionHypothesis =>
    obtain ⟨here, later⟩ := List.forall_mem_cons.mp disciplined
    have own := here.once
    have rest := inductionHypothesis later
    rw [List.flatMap_cons, List.length_append, List.length_cons]
    omega

/-- There are no more statements than boundaries and the root, whatever the database answers. -/
theorem BatchedRun.length_issued {q : Sql.Query} {log : List Visit}
    (run : BatchedRun fl d t children s q log s') :
    s'.issued.length ≤ s.issued.length + (1 + (Node.boundariesIn children).length) := by
  have boundaries := run.once.length_eq
  have visits := length_flatMap_issued run.disciplined
  rw [List.length_map] at boundaries
  rw [run.issued, List.length_append, List.length_cons]
  omega

theorem run_batched {v : Value} (apart : (Node.table t children).Everywhere Table.TablesApart)
    (ran : run fl d (.table t children) s = (.ok v, s')) :
    ∃ q log, BatchedRun fl d t children s q log s' := by
  have joins := Node.everywhere_mono (fun _ _ tables => tables.joinsApart) _ apart
  obtain ⟨items, s₁, fetched, ran⟩ := Run.bind_ok.mp ran
  obtain ⟨value, s₂, made, ran⟩ := Run.bind_ok.mp ran
  obtain ⟨converted, rfl⟩ := Run.ofExcept_ok.mp made
  obtain ⟨q, compiled, asked⟩ := fetch_issued fetched
  obtain ⟨shape, rows, shaped, hydrated⟩ := fetch_hydrated fetched
  have hydrates := Connection.Hydrates.all_or_first shaped hydrated (t.many || t.paginate)
  have trimmed := Connection.trimmed_convert (.table t children) joins hydrates converted
  obtain ⟨log, visits⟩ : ∃ log, Visits fl d .both children value.objects s₁ log s' := by
    split at ran
    · obtain ⟨values, s₃, changed, ran⟩ := Run.bind_ok.mp ran
      obtain ⟨_, rfl⟩ := Run.pure_ok.mp ran
      obtain ⟨out, completed⟩ := onValues_ok changed
      rw [itemObjects, itemObjects, List.append_nil] at completed
      exact complete_visits (.table t children) apart trimmed.2 completed
    · rename_i quiet
      obtain ⟨_, rfl⟩ := Run.pure_ok.mp ran
      exact ⟨[], .quiet (by simpa using quiet) ..⟩
  refine ⟨q, log, compiled, ?_, visits.boundaries, visits.disciplined, ?_⟩
  · refine ⟨items, value, s₁, fetched, converted, fun single => ?_, trimmed.1, visits⟩
    rw [single] at converted
    have unpaged := (Bool.or_eq_false_iff.mp single).2
    exact Connection.objects_convert_head joins shaped hydrated unpaged converted
  · rw [visits.issued, asked, List.append_assoc, List.singleton_append]

end Execution

section Request

open Execution (BatchedRun)
open Plan (Node)

variable {Ctx σ : Type} {schema : Schema Ctx} {minify : Bool} {cx : Ctx} {x : Selection}

/-- Besides the statement of the root, a run that succeeds issues at most one statement for each
batch boundary, just for those with a correlation key among the live objects above, and the
statement is limited to the distinct keys of these objects. -/
theorem execute_statements (distinct : Selection.DistinctKeys schema schema.queryType [x])
    {root : Node} (planned : schema.plan minify cx x = .ok root) (fl : Sql.Flavor) (d : Driver σ)
    {v : Value} {s s' : Session σ} (ran : execute schema fl minify cx d x s = (.ok v, s')) :
    match root with
    | .table t children => ∃ q log, BatchedRun fl d t children s q log s' ∧
        s'.issued.length ≤ s.issued.length + (1 + (Node.boundariesIn children).length)
    | _ => s' = s := by
  have ran : Execution.ofSelection schema fl minify cx d x s = (.ok v, s') := by
    rw [execute] at ran
    split at ran
    · rename_i completed
      cases ran
      exact completed
    · cases ran
    · cases ran
  obtain ⟨root', s₁, replanned, ran⟩ := Run.bind_ok.mp ran
  obtain ⟨same, rfl⟩ := Run.ofExcept_ok.mp replanned
  cases planned.symm.trans same
  obtain ⟨_, s₂, checked, ran⟩ := Run.bind_ok.mp ran
  obtain ⟨_, rfl⟩ := Run.ofExcept_ok.mp checked
  cases root with
  | table t children =>
    have apart := Plan.plan_tablesApart distinct planned
    obtain ⟨q, log, batched⟩ := Execution.run_batched apart ran
    exact ⟨q, log, batched, batched.length_issued⟩
  | column _ | composite _ | noop _ _ => exact (Run.pure_ok.mp ran).2.symm

end Request

section PagedShop

open Execution (BatchedRun)
open Plan (Node Table)

def pagedFields : List (Field Unit) :=
  [{ plainField "products" (.object "Product" true) with
    sortKey := some (fun _ _ => [⟨"id", "id", .ascending, .int⟩])
    paginate := true }]

/-- The shop with its products a page at a time. -/
def pagedShop : Schema Unit :=
  ⟨.ofFields "Query" none pagedFields :: shopTypes.tail, .ofFields "Query" none pagedFields⟩

/-- The first product with its variants. -/
def firstProduct : Selection :=
  ⟨"products", none, ⟨[("first", .int 1)]⟩, [⟨"edges", none, .empty,
    [⟨"node", none, .empty, (productsRequest none).selections⟩]⟩]⟩

def pagedTable : Table := { productsTable with
  arguments := ⟨[("first", .int 1)]⟩
  sortKey := some [⟨"id", "id", .ascending, .int⟩]
  paginate := true }

def pagedNodes : List Node :=
  [.column ⟨.name "id", "id", "id", true, none, productsTable.location⟩,
    .column ⟨.name "id", "id", "id", false, none, productsTable.location⟩,
    .column ⟨.name "name", "name", "name", false, none, productsTable.location ++ ["name"]⟩,
    .table variantsTable variantNodes]

theorem plan_firstProduct :
    pagedShop.plan false () firstProduct = .ok (.table pagedTable pagedNodes) := by rfl

theorem distinctKeys_firstProduct :
    Selection.DistinctKeys pagedShop pagedShop.queryType [firstProduct] := by
  refine .intro (by simp) (fun x hx field typeName many childType found leads known => ?_)
  obtain rfl := List.mem_singleton.mp hx
  cases found
  cases leads
  exact distinctKeys_product (s := pagedShop) known rfl none (by decide)

/-- Returns two products first, and then a variant of the first of them. -/
def pagedDriver : Driver Nat where
  answer _ n :=
    let rows : List Row := if n = 0 then
        [⟨[("id", .int 1), ("name", .text "Desk"), ("sku", .text "D-1")]⟩,
          ⟨[("id", .int 2), ("name", .text "Lamp"), ("sku", .text "L-1")]⟩]
      else [⟨[("id", .int 7), ("productSku", .text "D-1")]⟩]
    (.rows false (rows.map (fun r => ⟨.ok r, false⟩)), n + 1)

/-- The second product only shows that there are more, and its variants are not asked for. -/
theorem execute_statements_paged : ∃ v s',
    execute pagedShop .sqlite false () pagedDriver firstProduct ⟨0, false, []⟩ = (.ok v, s') ∧
    s'.issued.map (fun q => q.params.values) = [[], [.text "D-1"]] ∧
    ∃ q log, BatchedRun .sqlite pagedDriver pagedTable pagedNodes ⟨0, false, []⟩ q log s' ∧
      s'.issued.length ≤ 2 := by
  refine ⟨_, _, Prod.ext rfl rfl, rfl, ?_⟩
  exact execute_statements distinctKeys_firstProduct plan_firstProduct .sqlite pagedDriver
    (Prod.ext rfl rfl)

end PagedShop

end TreeQuery
