import TreeQuery.Execution
import TreeQuery.Proofs.Execution.Abreast
import TreeQuery.Proofs.Sql.SameBinding
import TreeQuery.Proofs.Sql.SameSource

/-!
Plans that differ in labels only, run side by side. What is made of the objects that statements
return does not depend on labels, so the runs end alike if the statements are fetched alike.
-/

namespace TreeQuery

open Plan (Node Relabels Table)
open Run (Abreast)

variable {t t' : Table} {cs cs' : List Node} {known : (String → String) → Prop}

namespace Connection

theorem ofItems_relabelled (same : t.Relabelled t') (items : List Value) :
    ofItems t' items = ofItems t items := by
  have paging := same.paging.mapError ConnectionError.paging
  have made : Outcomes Eq (ofItems t items) (ofItems t' items) := by
    apply paging.bind
    intro p p' related
    cases related <;> exact .ok rfl
  exact (Outcomes.eq_iff.mp made).symm

theorem convert_relabelled (same : t.Relabelled t')
    (below : ∀ v, convertChildren cs' v = convertChildren cs v) (v : Value) :
    convert (.table t' cs') v = convert (.table t cs) v := by
  have each : convertChildren cs' = convertChildren cs := funext below
  cases v <;> simp only [convert, same.paginate, same.location, each, ofItems_relabelled same]

theorem convertChildren_relabelled (below : Relabels known t t' cs cs') (v : Value) :
    convertChildren cs' v = convertChildren cs v := by
  induction below generalizing v with
  | nil => rfl
  | column _ _ inductionHypothesis | composite _ _ _ _ _ inductionHypothesis
  | noop _ _ _ inductionHypothesis => exact inductionHypothesis v
  | table here _ _ belowHypothesis laterHypothesis =>
    have inner := convert_relabelled here belowHypothesis
    cases v <;> simp only [convertChildren, here.isBatch, here.fieldName, laterHypothesis, inner]

end Connection

namespace Batch

theorem parentKeys_relabelled (same : t.Relabelled t') : parentKeys t' = parentKeys t := by
  have keys := same.batchKeys?
  funext object
  unfold parentKeys
  generalize t.batchKeys? = k at keys ⊢
  generalize t'.batchKeys? = k' at keys ⊢
  cases keys with
  | none => rfl
  | some keys =>
    cases keys
    rfl

theorem scope_relabelled (same : t.Relabelled t') (objects : List (Fields Value)) :
    scope t' objects = scope t objects := by
  rw [scope, scope, parentKeys_relabelled same]

theorem attach_relabelled (same : t.Relabelled t') (groups : Option Groups)
    (object : Fields Value) : attach t' groups object = attach t groups object := by
  simp only [attach, parentKeys_relabelled same, same.many, same.paginate]

end Batch

namespace Execution

variable {σ : Type} {fl : Sql.Flavor} {d : Driver σ}

theorem groupValues_relabelled (same : t.Relabelled t') (groups : Grouping Key Value) :
    groupValues t' groups = groupValues t groups := by
  have each (items : List Value) : groupValue t' items = groupValue t items := by
    rw [groupValue, groupValue, same.paginate, Connection.ofItems_relabelled same]
  induction groups with
  | nil => rfl
  | cons g groups inductionHypothesis => rw [groupValues, groupValues, each, inductionHypothesis]

/-- The batches of one table, twice, with the same groups. -/
def SameFetched (a b : Table × Option Groups) : Prop := a.1.Relabelled b.1 ∧ a.2 = b.2

theorem attachAll_relabelled {fetched fetched' : Fetched}
    (same : List.Forall₂ SameFetched fetched fetched') (objects : List (Fields Value)) :
    Batch.attachAll fetched' objects = Batch.attachAll fetched objects := by
  induction same generalizing objects with
  | nil => rfl
  | @cons a b _ _ first _ inductionHypothesis =>
    obtain ⟨table, groups⟩ := a
    obtain ⟨table', groups'⟩ := b
    obtain ⟨here, same⟩ := first
    obtain rfl : groups = groups' := same
    have name : table'.fieldName = table.fieldName := here.fieldName
    have attached : Batch.attach table' groups = Batch.attach table groups :=
      funext (Batch.attach_relabelled here groups)
    rw [Batch.attachAll, Batch.attachAll, inductionHypothesis, name, attached]

section Sessions

variable {S : Session σ → Session σ → Prop}

theorem onValues_abreast {f g : List (Fields Value) → Task σ (List (Fields Value))}
    (each : ∀ objects, Abreast S Eq (f objects) (g objects)) (values : List Value) :
    Abreast S Eq (onValues f values) (onValues g values) := by
  apply (each _).bind
  rintro objects _ rfl
  exact .pure rfl

theorem onGroups_abreast {f g : List (Fields Value) → Task σ (List (Fields Value))}
    (each : ∀ objects, Abreast S Eq (f objects) (g objects)) (groups : Groups) :
    Abreast S Eq (onGroups f groups) (onGroups g groups) := by
  apply (onValues_abreast each _).bind
  rintro values _ rfl
  exact .pure rfl

/-- The statements of two tables are fetched alike, whatever the keys in scope are. -/
def FetchedAlike (fl : Sql.Flavor) (d : Driver σ) (S : Session σ → Session σ → Prop)
    (b b' : Table × List Node) : Prop :=
  ∀ scope, Abreast S Eq (fetch fl d (.table b.1 b.2) scope) (fetch fl d (.table b'.1 b'.2) scope)

theorem fetchGroups_abreast (same : t.Relabelled t') (below : Relabels known t t' cs cs')
    (fetched : FetchedAlike fl d S (t, cs) (t', cs')) (scope : List Key) :
    Abreast S Eq (fetchGroups fl d t cs scope) (fetchGroups fl d t' cs' scope) := by
  have required : Outcomes Plan.Batch.Relabelled (requireKeys t) (requireKeys t') := by
    have keys := same.batchKeys?
    rw [requireKeys, requireKeys, same.location]
    generalize t.batchKeys? = k at keys ⊢
    generalize t'.batchKeys? = k' at keys ⊢
    cases keys with
    | none => exact .error _
    | some keys => exact .ok keys
  have converted : Connection.convertChildren cs' = Connection.convertChildren cs :=
    funext (Connection.convertChildren_relabelled below)
  unfold fetchGroups
  apply (fetched _).bind
  rintro items _ rfl
  apply (Abreast.ofExcept required _).bind
  rintro keys keys' ⟨_, _⟩
  rw [converted]
  apply (Abreast.ofExcept (.same _) _).bind
  rintro items _ rfl
  rw [groupValues_relabelled same]
  exact .ofExcept (.same _) _

/-- The batches and the joined tables below two tables run alike. -/
structure LevelsAlike (fl : Sql.Flavor) (d : Driver σ) (S : Session σ → Session σ → Prop)
    (cs cs' : List Node) : Prop where
  batches : ∀ w objects, Abreast S (List.Forall₂ SameFetched) (fetchBatches fl d w cs objects)
    (fetchBatches fl d w cs' objects)
  joined : ∀ w seen objects, Abreast S Eq (runJoined fl d w seen cs objects)
    (runJoined fl d w seen cs' objects)

theorem LevelsAlike.complete (levels : LevelsAlike fl d S cs cs')
    (below : Relabels known t t' cs cs') (objects : List (Fields Value)) :
    Abreast S Eq (complete fl d (.table t cs) objects) (complete fl d (.table t' cs') objects) := by
  rw [Execution.complete, Execution.complete, below.countP_isBatch, below.countP_isJoinedToBatch]
  apply (levels.batches _ objects).bind
  intro fetched fetched' same
  rw [attachAll_relabelled same]
  exact levels.joined _ _ _

theorem levels_alike (below : Relabels known t t' cs cs')
    (fetched : ∀ p ∈ (Node.boundariesIn cs).zip (Node.boundariesIn cs'),
      FetchedAlike fl d S p.1 p.2) :
    LevelsAlike fl d S cs cs' := by
  -- both halves together, as a batch runs the joined tables below it and these run their batches
  induction below with
  | nil => exact ⟨fun _ _ => .pure .nil, fun _ _ _ => .pure rfl⟩
  | column _ _ inductionHypothesis | composite _ _ _ _ _ inductionHypothesis
  | noop _ _ _ inductionHypothesis =>
    have later := inductionHypothesis fetched
    exact ⟨later.batches, later.joined⟩
  | @table t t' u u' cs cs' ds ds' here below _ belowHypothesis laterHypothesis =>
    rw [Relabels.zip_boundariesIn here below, List.forall_mem_append,
      List.forall_mem_append] at fetched
    obtain ⟨⟨own, inner⟩, rest⟩ := fetched
    have completed := (belowHypothesis inner).complete below
    have later := laterHypothesis rest
    refine ⟨fun w objects => ?_, fun w seen objects => ?_⟩
    · rw [fetchBatches, fetchBatches, here.isBatch, below.anyBatch, Batch.scope_relabelled here]
      apply Abreast.ite
      · intro batch
        rw [if_pos batch] at own
        have one := own _ (List.mem_cons_self ..)
        apply Abreast.beside w (R := Eq) _ rfl
        · rintro groups _ rfl
          apply (later.batches w objects).bind
          intro fetched fetched' same
          exact .pure (.cons ⟨here, rfl⟩ same)
        · apply Abreast.ite
          · intro _
            exact .pure rfl
          intro _
          apply (fetchGroups_abreast here below one _).bind
          rintro groups _ rfl
          apply Abreast.ite
          · intro _
            exact (onGroups_abreast completed groups).map (fun _ _ same => congrArg some same)
          · intro _
            exact .pure rfl
      · intro _
        exact later.batches w objects
    · rw [runJoined, runJoined, here.isBatch, below.anyBatch, here.fieldName]
      apply Abreast.ite
      · intro _
        exact later.joined w seen objects
      · intro _
        apply Abreast.beside w (R := Eq) _ rfl
        · rintro objects _ rfl
          exact later.joined w _ objects
        · apply (onValues_abreast completed _).bind
          rintro values _ rfl
          exact .pure rfl

/-- Plans that differ in labels run alike if their statements are fetched alike. -/
theorem run_abreast {root root' : Node} (h : root.Relabelled known root')
    (fetched : ∀ p ∈ root.statementRoots.zip root'.statementRoots, FetchedAlike fl d S p.1 p.2) :
    Abreast S Eq (run fl d root) (run fl d root') := by
  cases h with
  | noop _ _ => exact .pure rfl
  | @table t t' cs cs' here below =>
    have converted (v : Value) := Connection.convert_relabelled here
      (Connection.convertChildren_relabelled below) v
    obtain ⟨own, inner⟩ := List.forall_mem_cons.mp fetched
    rw [run, run, here.many, here.paginate, below.anyBatch]
    apply (own none).bind
    rintro items _ rfl
    dsimp only
    rw [converted]
    apply (Abreast.ofExcept (.same _) _).bind
    rintro value _ rfl
    apply Abreast.ite
    · intro _
      apply (onValues_abreast ((levels_alike below inner).complete below) _).bind
      rintro values _ rfl
      exact .pure rfl
    · intro _
      exact .pure rfl

end Sessions

end Execution

end TreeQuery
