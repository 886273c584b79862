import TreeQuery.Proofs.Plan.Relabelled
import TreeQuery.Sql.OfPlan

/-!
What a statement binds does not depend on the labels of its plan. Two plans that differ in labels
only are rendered side by side: both fail alike, or bind the same values one after the other.
-/

namespace TreeQuery.Sql

open Plan (Junction Node Paging Relabels Table)

/-- Both fail alike, or bind the same values and end in related results. -/
abbrev BindsAs {α β : Type} (R : α → β → Prop) (m : Binder α) (m' : Binder β) : Prop :=
  InStep Eq R m m'

section Predicates

theorem bindValue_bindsAs (v : Value) : BindsAs Any (bindValue v) (bindValue v) := by
  rintro ps _ rfl
  exact .ok ⟨trivial, rfl⟩

theorem bindValues_bindsAs (vs : List Value) : BindsAs Any (bindValues vs) (bindValues vs) := by
  induction vs with
  | nil => exact .pure trivial
  | cons v vs inductionHypothesis =>
    apply (bindValue_bindsAs v).bind
    intro t t' _
    exact inductionHypothesis.bind (fun _ _ _ => .pure trivial)

/-- The same roles have a table. -/
def Labels.SameRoles (a b : Labels) : Prop := ∀ r, (a.label? r).isSome = (b.label? r).isSome

theorem Labels.sameRoles_ofTable (label label' : String) :
    (Labels.ofTable label).SameRoles (.ofTable label') := by
  rintro (_ | _ | _) <;> rfl

theorem Labels.sameRoles_ofJoin (parent child parent' child' : String) :
    (Labels.ofJoin parent child).SameRoles (.ofJoin parent' child') := by
  rintro (_ | _ | _) <;> rfl

variable {a b : Labels}

theorem resolve_outcomes (roles : a.SameRoles b) (r : Role) :
    Outcomes Any (a.resolve r) (b.resolve r) := by
  have same := roles r
  unfold Labels.resolve
  cases ha : a.label? r <;> cases hb : b.label? r <;> rw [ha, hb] at same
  · exact .error _
  · cases same
  · cases same
  · exact .ok trivial

theorem columnToken_bindsAs (roles : a.SameRoles b) (c : ColumnRef) :
    BindsAs Any (columnToken a c) (columnToken b c) :=
  (InStep.lift (resolve_outcomes roles c.role)).bind (fun _ _ _ => .pure trivial)

theorem comparison_bindsAs (column column' : Token) (op : CompareOp) (v : Value) :
    BindsAs Any (comparison column op v) (comparison column' op v) := by
  have compared : BindsAs Any
      (do return [column, .sql (" " ++ op.sql ++ " "), ← bindValue v])
      (do return [column', .sql (" " ++ op.sql ++ " "), ← bindValue v]) :=
    (bindValue_bindsAs v).bind (fun _ _ _ => .pure trivial)
  cases v <;> cases op <;> first | exact compared | exact .pure trivial

theorem membership_bindsAs (column column' : Token) (vs : List Value) :
    BindsAs Any (membership column vs) (membership column' vs) :=
  (bindValues_bindsAs vs).bind (fun _ _ _ => .pure trivial)

theorem raw_bindsAs (roles : a.SameRoles b) (sql : String) (ps : Fields Value) :
    BindsAs Any (raw a sql ps) (raw b sql ps) := by
  unfold raw
  induction pieces (Fields.contains ps) sql with
  | nil => exact .pure trivial
  | cons p pieces inductionHypothesis =>
    have here : BindsAs Any (pieceToken a ps p) (pieceToken b ps p) := by
      cases p with
      | char c => exact .pure trivial
      | role r => exact (InStep.lift (resolve_outcomes roles r)).bind (fun _ _ _ => .pure trivial)
      | param name => exact bindValue_bindsAs _
    apply here.bind
    intro t t' _
    exact inductionHypothesis.bind (fun _ _ _ => .pure trivial)

mutual

theorem condition_bindsAs (roles : a.SameRoles b) : (c : Condition) →
    BindsAs Any (condition a c) (condition b c)
  | .compare c op v => by
    rw [condition, condition]
    apply (columnToken_bindsAs roles c).bind
    intro column column' _
    exact comparison_bindsAs column column' op v
  | .compareColumns l op r => by
    rw [condition, condition]
    apply (columnToken_bindsAs roles l).bind
    intro left left' _
    exact (columnToken_bindsAs roles r).bind (fun _ _ _ => .pure trivial)
  | .within c vs => by
    rw [condition, condition]
    apply InStep.ite
    · intro _
      exact .pure trivial
    · intro _
      apply (columnToken_bindsAs roles c).bind
      intro column column' _
      exact membership_bindsAs column column' vs
  | .raw sql ps => by
    rw [condition, condition]
    exact raw_bindsAs roles sql ps
  | .group cs => by
    rw [condition, condition]
    apply InStep.ite
    · intro _
      exact .pure trivial
    · intro _
      exact (clauseTokens_bindsAs roles true cs).bind (fun _ _ _ => .pure trivial)
  | .exists sql ps => by
    rw [condition, condition]
    exact (raw_bindsAs roles sql ps).bind (fun _ _ _ => .pure trivial)

theorem clauseTokens_bindsAs (roles : a.SameRoles b) (first : Bool) : (cs : List Clause) →
    BindsAs Any (clauseTokens a first cs) (clauseTokens b first cs)
  | [] => .pure trivial
  | .mk connective negated c :: cs => by
    rw [clauseTokens, clauseTokens]
    apply (condition_bindsAs roles c).bind
    intro body body' _
    exact (clauseTokens_bindsAs roles false cs).bind (fun _ _ _ => .pure trivial)

end

theorem predicate_bindsAs (roles : a.SameRoles b) (cs : List Clause) :
    BindsAs Any (predicate a cs) (predicate b cs) := by
  unfold predicate
  apply InStep.ite
  · intro _
    exact .pure trivial
  · intro _
    exact (clauseTokens_bindsAs roles true cs).bind (fun _ _ _ => .pure trivial)

theorem filter_bindsAs (roles : a.SameRoles b) (cs : List Clause) :
    BindsAs Any (filter a cs) (filter b cs) := by
  unfold filter
  apply InStep.ite
  · intro _
    exact .pure trivial
  · intro _
    exact (predicate_bindsAs roles cs).bind (fun _ _ _ => .pure trivial)

end Predicates

section Pages

variable {p p' : Paging}

theorem cursorCondition_bindsAs (h : p.Relabelled p') :
    BindsAs Any (cursorCondition p) (cursorCondition p') := by
  cases h with
  | offset p => exact .pure trivial
  | keyset p table =>
    have terms (q : Plan.KeysetPage) (key : SortKey) (vs : List Value) :
        BindsAs Any (cursorTerms p key vs) (cursorTerms q key vs) := by
      induction key generalizing vs with
      | nil => exact .pure trivial
      | cons c key inductionHypothesis =>
        cases vs with
        | nil => exact .pure trivial
        | cons v vs =>
          apply (bindValue_bindsAs v).bind
          intro t t' _
          exact (inductionHypothesis vs).bind (fun _ _ _ => .pure trivial)
    rw [cursorCondition, cursorCondition]
    cases p.cursor with
    | none => exact .pure trivial
    | some vs =>
      apply (terms _ p.key vs).bind
      intro cs cs' _
      exact .pure trivial

variable {t t' : Table} (fl : Flavor)

theorem getPaging_bindsAs (h : t.Relabelled t') :
    BindsAs Paging.Relabelled (getPaging t) (getPaging t') := .lift (h.paging.mapError _)

theorem supportedPaging_bindsAs (h : t.Relabelled t') (lateral : Bool) :
    BindsAs Paging.Relabelled (supportedPaging fl t lateral) (supportedPaging fl t' lateral) := by
  apply (getPaging_bindsAs h).bind
  intro p p' same
  have kind : p'.isOffset = p.isOffset := by cases same <;> rfl
  rw [h.location, kind]
  exact (InStep.lift_self _).bind (fun _ _ _ => .pure same)

theorem filters_bindsAs (h : t.Relabelled t') :
    BindsAs Any (filter (.ofTable t.label) t.filter) (filter (.ofTable t'.label) t'.filter) := by
  cases h
  exact filter_bindsAs (Labels.sameRoles_ofTable _ _) t.filter

theorem rootPage_bindsAs (h : t.Relabelled t') : BindsAs Any (rootPage fl t) (rootPage fl t') := by
  apply (supportedPaging_bindsAs fl h false).bind
  intro p p' same
  apply (filters_bindsAs h).bind
  intro own own' _
  exact (cursorCondition_bindsAs same).bind (fun _ _ _ => .pure trivial)

theorem joinedPage_bindsAs (parent parent' : Table) (h : t.Relabelled t') (join : List Clause) :
    BindsAs Any (joinedPage fl parent t join) (joinedPage fl parent' t' join) := by
  have roles := Labels.sameRoles_ofJoin parent.label t.label parent'.label t'.label
  apply (supportedPaging_bindsAs fl h true).bind
  intro p p' same
  apply (filter_bindsAs roles join).bind
  intro joined joined' _
  apply (filters_bindsAs h).bind
  intro own own' _
  apply (cursorCondition_bindsAs same).bind
  intro past past' _
  exact (predicate_bindsAs roles join).bind (fun _ _ _ => .pure trivial)

theorem scopeTable_bindsAs (column column' : String) (vs : List Value) :
    BindsAs Any (scopeTable column vs) (scopeTable column' vs) :=
  (bindValues_bindsAs vs).bind (fun _ _ _ => .pure trivial)

theorem batchPage_bindsAs (h : t.Relabelled t') (keys keys' : Plan.Batch) (scope : List Value) :
    BindsAs Any (batchPage fl t keys scope) (batchPage fl t' keys' scope) := by
  apply (supportedPaging_bindsAs fl h true).bind
  intro p p' same
  apply (scopeTable_bindsAs _ _ scope).bind
  intro from_ from_' _
  apply (filters_bindsAs h).bind
  intro own own' _
  exact (cursorCondition_bindsAs same).bind (fun _ _ _ => .pure trivial)

variable {j j' : Junction}

theorem innerJoin_bindsAs (h : t.Relabelled t') (toChild : List Clause) :
    BindsAs Any (innerJoin t j toChild) (innerJoin t' j' toChild) := by
  cases h
  apply InStep.ite
  · intro _
    exact .pure trivial
  · intro _
    exact (predicate_bindsAs (Labels.sameRoles_ofJoin _ _ _ _) toChild).bind
      (fun _ _ _ => .pure trivial)

theorem linkFilters_bindsAs (through : j.Relabelled j') :
    BindsAs Any (filter (.ofTable j.label) j.filter) (filter (.ofTable j'.label) j'.filter) := by
  cases through
  exact filter_bindsAs (Labels.sameRoles_ofTable _ _) j.filter

theorem junctionPage_bindsAs (parent parent' : Table) (h : t.Relabelled t')
    (through : j.Relabelled j') (fromParent toChild : List Clause) :
    BindsAs Any (junctionPage fl parent t j fromParent toChild)
      (junctionPage fl parent' t' j' fromParent toChild) := by
  have roles := Labels.sameRoles_ofJoin parent.label j.label parent'.label j'.label
  apply (supportedPaging_bindsAs fl h true).bind
  intro p p' same
  apply (filter_bindsAs roles fromParent).bind
  intro joined joined' _
  apply (linkFilters_bindsAs through).bind
  intro linked linked' _
  apply (filters_bindsAs h).bind
  intro own own' _
  apply (cursorCondition_bindsAs same).bind
  intro past past' _
  apply (innerJoin_bindsAs h toChild).bind
  intro inner inner' _
  exact (predicate_bindsAs roles fromParent).bind (fun _ _ _ => .pure trivial)

theorem junctionBatchPage_bindsAs (h : t.Relabelled t') (through : j.Relabelled j')
    (keys keys' : Plan.Batch) (scope : List Value) (join : List Clause) :
    BindsAs Any (junctionBatchPage fl t j keys scope join)
      (junctionBatchPage fl t' j' keys' scope join) := by
  apply (supportedPaging_bindsAs fl h true).bind
  intro p p' same
  apply (scopeTable_bindsAs _ _ scope).bind
  intro from_ from_' _
  apply (linkFilters_bindsAs through).bind
  intro linked linked' _
  apply (filters_bindsAs h).bind
  intro own own' _
  apply (cursorCondition_bindsAs same).bind
  intro past past' _
  apply (innerJoin_bindsAs h join).bind
  intro inner inner' _
  exact (predicate_bindsAs (Labels.sameRoles_ofJoin _ _ _ _) join).bind
    (fun _ _ _ => .pure trivial)

end Pages

section Parts

variable {parent parent' : Option Table} {t t' : Table} {j j' : Junction}

theorem tableFilter_bindsAs (above : Option.Rel Table.Relabelled parent parent')
    (h : t.Relabelled t') : BindsAs Any (tableFilter parent t) (tableFilter parent' t') := by
  have nested : parent'.isSome = parent.isSome := by cases above <;> rfl
  unfold tableFilter
  rw [h.paginate, h.isBatch, nested]
  apply InStep.ite
  · intro _
    exact .pure trivial
  intro _
  obtain ⟨here, there⟩ | ⟨j, j', here, there, through⟩ := h.linked
  · rw [here, there]
    exact (filters_bindsAs h).bind (fun _ _ _ => .pure trivial)
  · rw [here, there]
    apply (linkFilters_bindsAs through).bind
    intro linked linked' _
    exact (filters_bindsAs h).bind (fun _ _ _ => .pure trivial)

theorem continues_eq_of_relabelled (above : Option.Rel Table.Relabelled parent parent')
    (h : t.Relabelled t') : continues parent' t' = continues parent t := by
  have root : parent'.isNone = parent.isNone := by cases above <;> rfl
  rw [continues, continues, root, h.isBatch]

theorem orderPart_bindsAs (above : Option.Rel Table.Relabelled parent parent')
    (h : t.Relabelled t') : BindsAs Any (orderPart parent t) (orderPart parent' t') := by
  unfold orderPart
  rw [continues_eq_of_relabelled above h, h.paginate]
  apply InStep.ite
  · intro _
    exact .pure trivial
  intro _
  apply InStep.ite
  · intro _
    exact (getPaging_bindsAs h).bind (fun _ _ _ => .pure trivial)
  · intro _
    exact .pure trivial

variable (fl : Flavor)

theorem joinPart_bindsAs (above : Option.Rel Table.Relabelled parent parent')
    (h : t.Relabelled t') (join : List Clause) :
    BindsAs Any (joinPart fl parent t join) (joinPart fl parent' t' join) := by
  unfold joinPart
  rw [h.location, h.paginate]
  cases above with
  | none => exact .throw _
  | @some p p' _ =>
    apply InStep.ite
    · intro _
      exact (joinedPage_bindsAs fl p p' h join).bind (fun _ _ _ => .pure trivial)
    · intro _
      exact (predicate_bindsAs (Labels.sameRoles_ofJoin _ _ _ _) join).bind
        (fun _ _ _ => .pure trivial)

theorem requireScope_eq (h : t.Relabelled t') (scope : Option (List Value)) :
    requireScope t' scope = requireScope t scope := by
  cases h
  rfl

theorem junctionBatchPart_bindsAs (path path' : List String) (scope : Option (List Value))
    (above : Option.Rel Table.Relabelled parent parent') (h : t.Relabelled t')
    (through : j.Relabelled j') {b b' : Plan.JunctionBatch} (batch : b.Relabelled b') :
    BindsAs Any (junctionBatchPart fl parent path scope t j b)
      (junctionBatchPart fl parent' path' scope t' j' b') := by
  have join : b'.join = b.join := by
    cases batch
    rfl
  cases above with
  | some _ => exact .pure trivial
  | none =>
    dsimp only [junctionBatchPart]
    rw [h.location, join, h.paginate, requireScope_eq h]
    cases b.join with
    | none => exact .throw _
    | some join =>
      apply (InStep.lift_self (requireScope t scope)).bind
      rintro scope _ ⟨rfl, _⟩
      apply InStep.ite
      · intro _
        exact (junctionBatchPage_bindsAs fl h through b.keys b'.keys scope join).bind
          (fun _ _ _ => .pure trivial)
      · intro _
        apply (predicate_bindsAs (Labels.sameRoles_ofJoin _ _ _ _) join).bind
        intro on on' _
        exact (membership_bindsAs _ _ scope).bind (fun _ _ _ => .pure trivial)

theorem junctionPart_bindsAs (above : Option.Rel Table.Relabelled parent parent')
    (h : t.Relabelled t') (through : j.Relabelled j') :
    BindsAs Any (junctionPart fl parent t j) (junctionPart fl parent' t' j') := by
  have joins : j'.fromParent = j.fromParent ∧ j'.toChild = j.toChild := by
    cases through
    exact ⟨rfl, rfl⟩
  unfold junctionPart
  rw [h.location, h.paginate, joins.1, joins.2]
  cases above with
  | none => exact .throw _
  | @some p p' _ =>
    cases j.fromParent with
    | none => exact .throw _
    | some fromParent =>
      cases j.toChild with
      | none => exact .throw _
      | some toChild =>
        have child (link link' : List TableItem) : BindsAs Any
            (do
              let on ← predicate (.ofJoin j.label t.label) toChild
              return tablesOnly (link ++ [.leftJoin t.name t.label false on]))
            (do
              let on ← predicate (.ofJoin j'.label t'.label) toChild
              return tablesOnly (link' ++ [.leftJoin t'.name t'.label false on])) :=
          (predicate_bindsAs (Labels.sameRoles_ofJoin _ _ _ _) toChild).bind
            (fun _ _ _ => .pure trivial)
        apply InStep.ite
        · intro _
          exact (junctionPage_bindsAs fl p p' h through fromParent toChild).bind
            (fun link link' _ => child link link')
        · intro _
          apply (predicate_bindsAs (Labels.sameRoles_ofJoin _ _ _ _) fromParent).bind
          intro on on' _
          exact child _ _

theorem batchPart_bindsAs (path path' : List String) (scope : Option (List Value))
    (above : Option.Rel Table.Relabelled parent parent') (h : t.Relabelled t')
    (b b' : Plan.Batch) :
    BindsAs Any (batchPart fl parent path scope t b) (batchPart fl parent' path' scope t' b') := by
  cases above with
  | some _ => exact .pure trivial
  | none =>
    dsimp only [batchPart]
    rw [h.paginate, requireScope_eq h]
    apply (InStep.lift_self (requireScope t scope)).bind
    rintro scope _ ⟨rfl, _⟩
    apply InStep.ite
    · intro _
      exact (batchPage_bindsAs fl h b b' scope).bind (fun _ _ _ => .pure trivial)
    · intro _
      exact (membership_bindsAs _ _ scope).bind (fun _ _ _ => .pure trivial)

theorem rootPart_bindsAs (above : Option.Rel Table.Relabelled parent parent')
    (h : t.Relabelled t') : BindsAs Any (rootPart fl parent t) (rootPart fl parent' t') := by
  unfold rootPart
  rw [h.location, h.paginate]
  cases above with
  | some _ => exact .throw _
  | none =>
    apply InStep.ite
    · intro nested
      cases nested
    intro _
    apply InStep.ite
    · intro _
      exact (rootPage_bindsAs fl h).bind (fun _ _ _ => .pure trivial)
    · intro _
      exact .pure trivial

theorem relationPart_bindsAs (path path' : List String) (scope : Option (List Value))
    (above : Option.Rel Table.Relabelled parent parent') (h : t.Relabelled t') :
    BindsAs Any (relationPart fl parent path scope t) (relationPart fl parent' path' scope t') := by
  have batches : Option.Rel Plan.Batch.Relabelled t.batch t'.batch := by
    cases h
    assumption
  unfold relationPart
  rw [h.join]
  cases t.join with
  | some join => exact joinPart_bindsAs fl above h join
  | none =>
    obtain ⟨here, there⟩ | ⟨j, j', here, there, through⟩ := h.linked
    · rw [here, there]
      generalize t.batch = b at batches ⊢
      generalize t'.batch = b' at batches ⊢
      cases batches with
      | none => exact rootPart_bindsAs fl above h
      | some _ => exact batchPart_bindsAs fl path path' scope above h _ _
    · rw [here, there]
      have batches : Option.Rel Plan.JunctionBatch.Relabelled j.batch j'.batch := by
        cases through
        assumption
      dsimp only
      generalize j.batch = b at batches ⊢
      generalize j'.batch = b' at batches ⊢
      cases batches with
      | none => exact junctionPart_bindsAs fl above h through
      | some batch => exact junctionBatchPart_bindsAs fl path path' scope above h through batch

theorem tablePart_bindsAs (path path' : List String) (scope : Option (List Value))
    (above : Option.Rel Table.Relabelled parent parent') (h : t.Relabelled t') :
    BindsAs Any (tablePart fl parent path scope t) (tablePart fl parent' path' scope t') := by
  apply (tableFilter_bindsAs above h).bind
  intro conditions conditions' _
  apply (orderPart_bindsAs above h).bind
  intro orders orders' _
  exact (relationPart_bindsAs fl path path' scope above h).bind (fun _ _ _ => .pure trivial)

end Parts

section Nodes

variable (fl : Flavor) {known : (String → String) → Prop}

theorem nodePart_bindsAs {parent parent' : Option Table} {t t' : Table} {cs cs' : List Node}
    (path path' : List String) (scope : Option (List Value))
    (above : Option.Rel Table.Relabelled parent parent') (here : t.Relabelled t')
    (below : ∀ path path', BindsAs Any (childrenPart fl t path cs) (childrenPart fl t' path' cs')) :
    BindsAs Any (nodePart fl parent path scope (.table t cs))
      (nodePart fl parent' path' scope (.table t' cs')) := by
  rw [nodePart, nodePart]
  apply (tablePart_bindsAs fl path path' scope above here).bind
  intro own own' _
  rw [continues_eq_of_relabelled above here]
  apply InStep.ite
  · intro _
    exact (below _ _).bind (fun _ _ _ => .pure trivial)
  · intro _
    exact .pure trivial

/-- What stands below two tables binds the same values. -/
theorem childrenPart_bindsAs {t t' : Table} {cs cs' : List Node}
    (below : Relabels known t t' cs cs') (same : t.Relabelled t') (path path' : List String) :
    BindsAs Any (childrenPart fl t path cs) (childrenPart fl t' path' cs') := by
  induction below generalizing path path' with
  | nil => exact .pure trivial
  | column _ _ inductionHypothesis | composite _ _ _ _ _ inductionHypothesis
  | noop _ _ _ inductionHypothesis =>
    have leaf {x x' : Part} : BindsAs Any (pure x) (pure x') := .pure trivial
    exact leaf.bind (fun _ _ _ => (inductionHypothesis same path path').bind
      (fun _ _ _ => .pure trivial))
  | table here _ _ belowHypothesis laterHypothesis =>
    rw [childrenPart, childrenPart]
    apply (nodePart_bindsAs fl path path' none (.some same) here (belowHypothesis here)).bind
    intro first first' _
    exact (laterHypothesis same path path').bind (fun _ _ _ => .pure trivial)

/-- The statements of plans that differ in labels bind the same values, if there are any. -/
theorem statement_bindsAs {t t' : Table} {cs cs' : List Node} (same : t.Relabelled t')
    (below : Relabels known t t' cs cs') (scope : Option (List Value)) :
    Outcomes (fun st st' => st.params = st'.params) (statement fl (.table t cs) scope)
      (statement fl (.table t' cs') scope) := by
  have node := nodePart_bindsAs fl [] [] scope .none same (childrenPart_bindsAs fl below same)
  dsimp only [statement, Node.table?]
  rw [same.location]
  split
  · exact .error _
  · exact (node _ _ rfl).map (fun _ _ ends => ends.2)

end Nodes

end TreeQuery.Sql
