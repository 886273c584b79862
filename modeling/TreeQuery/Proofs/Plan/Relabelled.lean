import TreeQuery.Plan.Paging
import TreeQuery.Proofs.Lockstep
import TreeQuery.Proofs.Plan.Sources
import TreeQuery.Proofs.Plan.TableLabels

/-!
Plans that differ in their labels only. The tables and columns stand in the same places, and what a
column is selected from is the same but for the labels of tables in it.
-/

namespace TreeQuery.Plan

inductive Batch.Relabelled : Batch → Batch → Prop
  | mk (keys : Batch) (this parent : String) : Batch.Relabelled keys
      ⟨{ keys.thisKey with label := this }, { keys.parentKey with label := parent }⟩

inductive JunctionBatch.Relabelled : JunctionBatch → JunctionBatch → Prop
  | mk (b : JunctionBatch) {keys : Batch} (same : b.keys.Relabelled keys) :
    JunctionBatch.Relabelled b { b with keys }

inductive Junction.Relabelled : Junction → Junction → Prop
  | mk (j : Junction) (label : String) {batch : Option JunctionBatch}
    (batches : Option.Rel JunctionBatch.Relabelled j.batch batch) :
    Junction.Relabelled j { j with label, batch }

inductive Table.Relabelled : Table → Table → Prop
  | mk (t : Table) (label : String) {junction : Option Junction} {batch : Option Batch}
    (junctions : Option.Rel Junction.Relabelled t.junction junction)
    (batches : Option.Rel Batch.Relabelled t.batch batch) :
    Table.Relabelled t { t with label, junction, batch }

/-- Labels that a table or its junction has in two plans. -/
inductive Table.LabelPair (t t' : Table) : String → String → Prop
  | own : Table.LabelPair t t' t.label t'.label
  | linked {j j' : Junction} (here : t.junction = some j) (there : t'.junction = some j') :
    Table.LabelPair t t' j.label j'.label

inductive Paging.Relabelled : Paging → Paging → Prop
  | offset (p : OffsetPage) (table : String) :
    Paging.Relabelled (.offset p) (.offset { p with table })
  | keyset (p : KeysetPage) (table : String) :
    Paging.Relabelled (.keyset p) (.keyset { p with table })

namespace Table.Relabelled

variable {t t' : Table}

/-- What does not look at labels sees no difference. -/
theorem agree (h : t.Relabelled t') {α : Type} (f : Table → α)
    (blind : ∀ t label junction batch, f { t with label, junction, batch } = f t) : f t' = f t := by
  cases h
  exact blind t _ _ _

theorem location (h : t.Relabelled t') : t'.location = t.location :=
  h.agree Table.location (fun _ _ _ _ => rfl)

theorem fieldName (h : t.Relabelled t') : t'.fieldName = t.fieldName :=
  h.agree Table.fieldName (fun _ _ _ _ => rfl)

theorem arguments (h : t.Relabelled t') : t'.arguments = t.arguments :=
  h.agree Table.arguments (fun _ _ _ _ => rfl)

theorem paginate (h : t.Relabelled t') : t'.paginate = t.paginate :=
  h.agree Table.paginate (fun _ _ _ _ => rfl)

theorem many (h : t.Relabelled t') : t'.many = t.many :=
  h.agree Table.many (fun _ _ _ _ => rfl)

theorem join (h : t.Relabelled t') : t'.join = t.join :=
  h.agree Table.join (fun _ _ _ _ => rfl)

theorem sortKey (h : t.Relabelled t') : t'.sortKey = t.sortKey :=
  h.agree Table.sortKey (fun _ _ _ _ => rfl)

theorem orderBy (h : t.Relabelled t') : t'.orderBy = t.orderBy :=
  h.agree Table.orderBy (fun _ _ _ _ => rfl)

theorem linked (h : t.Relabelled t') : t.junction = none ∧ t'.junction = none ∨
    ∃ j j', t.junction = some j ∧ t'.junction = some j' ∧ j.Relabelled j' := by
  cases h with
  | mk label junctions batches =>
    dsimp only
    generalize t.junction = j at junctions ⊢
    cases junctions with
    | none => exact .inl ⟨rfl, rfl⟩
    | some same => exact .inr ⟨_, _, rfl, rfl, same⟩

theorem junctionBatch? (h : t.Relabelled t') :
    Option.Rel JunctionBatch.Relabelled t.junctionBatch? t'.junctionBatch? := by
  unfold Table.junctionBatch?
  obtain ⟨here, there⟩ | ⟨j, j', here, there, same⟩ := h.linked
  · rw [here, there]
    exact .none
  · rw [here, there]
    cases same with
    | mk label batches => exact batches

theorem batchKeys? (h : t.Relabelled t') :
    Option.Rel Batch.Relabelled t.batchKeys? t'.batchKeys? := by
  have linked := h.junctionBatch?
  unfold Table.batchKeys?
  generalize t.junctionBatch? = b at linked ⊢
  generalize t'.junctionBatch? = b' at linked ⊢
  cases h with
  | mk label junctions batches =>
    dsimp only
    generalize t.batch = own at batches ⊢
    cases batches with
    | some same => exact .some same
    | none =>
      cases linked with
      | none => exact .none
      | some same =>
        cases same with
        | mk keys => exact .some keys

theorem isBatch (h : t.Relabelled t') : t'.isBatch = t.isBatch := by
  have keys := h.batchKeys?
  rw [t.isBatch_eq, t'.isBatch_eq]
  generalize t.batchKeys? = b at keys ⊢
  generalize t'.batchKeys? = b' at keys ⊢
  cases keys <;> rfl

/-- What drives a page from the junction drives it from the same junction. -/
theorem through (h : t.Relabelled t') {κ : Type} (f : Junction → Option κ)
    (blind : ∀ j label batch, f { j with label, batch } = f j) :
    Option.Rel (fun x y => x.1 = y.1 ∧ t.LabelPair t' x.2 y.2)
      (t.junction.bind (fun j => (f j).map (fun k => (k, j.label))))
      (t'.junction.bind (fun j => (f j).map (fun k => (k, j.label)))) := by
  obtain ⟨here, there⟩ | ⟨j, j', here, there, same⟩ := h.linked
  · rw [here, there]
    exact .none
  · have labels := Table.LabelPair.linked here there
    rw [here, there]
    cases same with
    | @mk label batch batches =>
      rw [Option.bind_some, Option.bind_some, blind j label batch]
      cases f j with
      | none => exact .none
      | some k => exact .some ⟨rfl, labels⟩

theorem keyset? (h : t.Relabelled t') :
    Option.Rel (fun x y => x.1 = y.1 ∧ t.LabelPair t' x.2 y.2) t.keyset? t'.keyset? := by
  unfold Table.keyset?
  rw [h.sortKey]
  cases t.sortKey with
  | some key => exact .some ⟨rfl, .own⟩
  | none => exact h.through Junction.sortKey (fun _ _ _ => rfl)

theorem offsetOrder? (h : t.Relabelled t') :
    Option.Rel (fun x y => x.1 = y.1 ∧ t.LabelPair t' x.2 y.2) t.offsetOrder? t'.offsetOrder? := by
  unfold Table.offsetOrder?
  rw [h.orderBy]
  cases t.orderBy with
  | some order => exact .some ⟨rfl, .own⟩
  | none => exact h.through Junction.orderBy (fun _ _ _ => rfl)

theorem pageLabel (h : t.Relabelled t') : t.LabelPair t' t.pageLabel t'.pageLabel := by
  unfold Table.pageLabel
  obtain ⟨here, there⟩ | ⟨j, j', here, there, _⟩ := h.linked
  · rw [here, there]
    exact .own
  · have through := Table.LabelPair.linked here there
    rw [here, there]
    exact through

theorem length_labels (h : t.Relabelled t') : t'.labels.length = t.labels.length := by
  unfold Table.labels
  obtain ⟨here, there⟩ | ⟨j, j', here, there, _⟩ := h.linked
  · rw [here, there]
    rfl
  · rw [here, there]
    rfl

/-- The labels of a table stand in the same places. -/
theorem mem_zip_labels (h : t.Relabelled t') {a a' : String} (same : t.LabelPair t' a a') :
    (a, a') ∈ t.labels.zip t'.labels := by
  unfold Table.labels
  obtain ⟨here, there⟩ | ⟨j, j', here, there, _⟩ := h.linked
  · cases same with
    | own => simp [here, there]
    | linked through _ => cases here.symm.trans through
  · cases same with
    | own => simp [here, there]
    | linked through through' =>
      cases here.symm.trans through
      cases there.symm.trans through'
      simp [here, there]

end Table.Relabelled

section Paging

theorem Table.keysetPage_relabelled (t : Table) (key : SortKey) (label label' : String) :
    Outcomes (fun p p' => Paging.Relabelled (.keyset p) (.keyset p'))
      (t.keysetPage key label) (t.keysetPage key label') := by
  apply (Outcomes.same (t.count? "first")).bind
  rintro first _ rfl
  apply (Outcomes.same (t.count? "last")).bind
  rintro last _ rfl
  apply (Outcomes.same (t.cursor? "after")).bind
  rintro after _ rfl
  apply (Outcomes.same (t.cursor? "before")).bind
  rintro before _ rfl
  apply (Outcomes.same (keysetBounds t.location first last after before)).bind
  rintro ⟨count, backward, cursor⟩ _ rfl
  cases cursor with
  | none => exact .ok (.keyset _ label')
  | some c =>
    dsimp only
    apply (Outcomes.same ((Cursor.toKeyset c key).mapError (PagingError.cursor t.location))).bind
    rintro values _ rfl
    exact .ok (.keyset _ label')

theorem Table.offsetPage_relabelled (t : Table) (order : OrderBy) (label label' : String) :
    Outcomes (fun p p' => Paging.Relabelled (.offset p) (.offset p'))
      (t.offsetPage order label) (t.offsetPage order label') := by
  unfold Table.offsetPage
  split
  · exact .error _
  apply (Outcomes.same (t.count? "first")).bind
  rintro first _ rfl
  apply (Outcomes.same (t.cursor? "after")).bind
  rintro after _ rfl
  cases after with
  | none => exact .ok (.offset _ label')
  | some c =>
    dsimp only
    apply (Outcomes.same ((Cursor.toOffset c).mapError (PagingError.cursor t.location))).bind
    rintro n _ rfl
    split
    · exact .ok (.offset _ label')
    · exact .error _

/-- Tables that differ in labels ask for one page, or for none out of one reason. -/
theorem Table.Relabelled.paging {t t' : Table} (h : t.Relabelled t') :
    Outcomes Paging.Relabelled t.paging t'.paging := by
  have keys := h.keyset?
  have orders := h.offsetOrder?
  have keyset (key : SortKey) (label label' : String) :
      Outcomes Paging.Relabelled ((t.keysetPage key label).map .keyset)
        ((t'.keysetPage key label').map .keyset) := by
    cases h
    exact (t.keysetPage_relabelled key label label').map (fun _ _ same => same)
  have offset (order : OrderBy) (label label' : String) :
      Outcomes Paging.Relabelled ((t.offsetPage order label).map .offset)
        ((t'.offsetPage order label').map .offset) := by
    cases h
    exact (t.offsetPage_relabelled order label label').map (fun _ _ same => same)
  unfold Table.paging
  rw [h.location]
  generalize t.keyset? = k at keys ⊢
  generalize t'.keyset? = k' at keys ⊢
  generalize t.offsetOrder? = o at orders ⊢
  generalize t'.offsetOrder? = o' at orders ⊢
  cases keys with
  | @some driven driven' same =>
    obtain ⟨key, label⟩ := driven
    obtain ⟨_, label'⟩ := driven'
    obtain rfl := same.1
    exact keyset key label label'
  | none =>
    cases orders with
    | @some driven driven' same =>
      obtain ⟨order, label⟩ := driven
      obtain ⟨_, label'⟩ := driven'
      obtain rfl := same.1
      exact offset order label label'
    | none => exact .error _

end Paging

/-- Columns of two tables that differ in labels, also those within an expression, which is one of
the functions of a quoted label that are known as expressions. -/
inductive Column.Relabelled (known : (String → String) → Prop) (t t' : Table) :
    Column → Column → Prop
  | name (column fieldName label label' : String) (isIdentity : Bool) {table table' : Option String}
    (tables : t.LabelPair t' (table.getD t.label) (table'.getD t'.label)) (location : Location) :
    Column.Relabelled known t t' ⟨.name column, fieldName, label, isIdentity, table, location⟩
      ⟨.name column, fieldName, label', isIdentity, table', location⟩
  | expression {f : String → String} (expresses : known f) {a a' : String}
    (same : t.LabelPair t' a a') (fieldName label label' : String) (isIdentity : Bool)
    (location : Location) :
    Column.Relabelled known t t'
      ⟨.expression (f (Identifier.quote a)), fieldName, label, isIdentity, none, location⟩
      ⟨.expression (f (Identifier.quote a')), fieldName, label', isIdentity, none, location⟩

namespace Column.Relabelled

variable {known : (String → String) → Prop} {t t' : Table} {c c' : Column}

theorem fieldName (h : c.Relabelled known t t' c') : c'.fieldName = c.fieldName := by
  cases h <;> rfl

theorem isIdentity (h : c.Relabelled known t t' c') : c'.isIdentity = c.isIdentity := by
  cases h <;> rfl

end Column.Relabelled

/-- The nodes below two tables, one by one. -/
inductive Relabels (known : (String → String) → Prop) :
    Table → Table → List Node → List Node → Prop
  | nil {t t' : Table} : Relabels known t t' [] []
  | column {t t' : Table} {c c' : Column} {cs cs' : List Node}
    (same : c.Relabelled known t t' c') (rest : Relabels known t t' cs cs') :
    Relabels known t t' (.column c :: cs) (.column c' :: cs')
  | composite {t t' : Table} {cs cs' : List Node} (columns : List String) (label label' : String)
    (location : Location) (rest : Relabels known t t' cs cs') :
    Relabels known t t' (.composite ⟨columns, label, location⟩ :: cs)
      (.composite ⟨columns, label', location⟩ :: cs')
  | noop {t t' : Table} {cs cs' : List Node} (fieldName : String) (location : Location)
    (rest : Relabels known t t' cs cs') :
    Relabels known t t' (.noop fieldName location :: cs) (.noop fieldName location :: cs')
  | table {t t' u u' : Table} {cs cs' ds ds' : List Node} (here : u.Relabelled u')
    (below : Relabels known u u' ds ds') (rest : Relabels known t t' cs cs') :
    Relabels known t t' (.table u ds :: cs) (.table u' ds' :: cs')

namespace Relabels

variable {known : (String → String) → Prop} {t t' : Table} {cs cs' ds ds' : List Node}

theorem append (h : Relabels known t t' cs cs') (later : Relabels known t t' ds ds') :
    Relabels known t t' (cs ++ ds) (cs' ++ ds') := by
  induction h with
  | nil => exact later
  | column same _ inductionHypothesis => exact .column same (inductionHypothesis later)
  | composite columns label label' location _ inductionHypothesis =>
    exact .composite columns label label' location (inductionHypothesis later)
  | noop fieldName location _ inductionHypothesis =>
    exact .noop fieldName location (inductionHypothesis later)
  | table here below _ _ inductionHypothesis => exact .table here below (inductionHypothesis later)

theorem anyBatch (h : Relabels known t t' cs cs') : Node.anyBatch cs' = Node.anyBatch cs := by
  induction h with
  | nil => rfl
  | column _ _ inductionHypothesis | composite _ _ _ _ _ inductionHypothesis
  | noop _ _ _ inductionHypothesis => exact inductionHypothesis
  | table here _ _ below later =>
    simp only [Node.anyBatch, Node.isBatch, Node.hasBatchBelow, here.isBatch, below, later]

theorem countP_isBatch (h : Relabels known t t' cs cs') :
    cs'.countP Node.isBatch = cs.countP Node.isBatch := by
  induction h with
  | nil => rfl
  | column _ _ inductionHypothesis | composite _ _ _ _ _ inductionHypothesis
  | noop _ _ _ inductionHypothesis => exact inductionHypothesis
  | @table _ _ u u' _ _ ds ds' here _ _ _ later =>
    have node : Node.isBatch (.table u' ds') = Node.isBatch (.table u ds) := here.isBatch
    rw [List.countP_cons, List.countP_cons, node, later]

theorem countP_isJoinedToBatch (h : Relabels known t t' cs cs') :
    cs'.countP Node.isJoinedToBatch = cs.countP Node.isJoinedToBatch := by
  induction h with
  | nil => rfl
  | column _ _ inductionHypothesis | composite _ _ _ _ _ inductionHypothesis
  | noop _ _ _ inductionHypothesis => exact inductionHypothesis
  | @table _ _ u u' _ _ ds ds' here below _ _ later =>
    have node : Node.isJoinedToBatch (.table u' ds') = Node.isJoinedToBatch (.table u ds) := by
      simp only [Node.isJoinedToBatch, Node.isBatch, Node.hasBatchBelow, here.isBatch,
        below.anyBatch]
    rw [List.countP_cons, List.countP_cons, node, later]

theorem length_tableLabelsIn (h : Relabels known t t' cs cs') :
    (Node.tableLabelsIn cs').length = (Node.tableLabelsIn cs).length := by
  induction h with
  | nil => rfl
  | column _ _ inductionHypothesis | composite _ _ _ _ _ inductionHypothesis
  | noop _ _ _ inductionHypothesis => exact inductionHypothesis
  | table here _ _ below later =>
    simp only [Node.tableLabelsIn, Node.tableLabels, List.length_append, here.length_labels, below,
      later]

/-- The labels in two plans stand side by side, first those of a table, then those below it, and
then those of the nodes after it. -/
theorem zip_tableLabelsIn {u u' : Table} (here : u.Relabelled u')
    (below : Relabels known u u' ds ds') :
    (Node.tableLabelsIn (.table u ds :: cs)).zip (Node.tableLabelsIn (.table u' ds' :: cs')) =
      u.labels.zip u'.labels ++ (Node.tableLabelsIn ds).zip (Node.tableLabelsIn ds') ++
        (Node.tableLabelsIn cs).zip (Node.tableLabelsIn cs') := by
  simp only [Node.tableLabelsIn, Node.tableLabels]
  rw [List.zip_append, List.zip_append here.length_labels.symm]
  rw [List.length_append, List.length_append, here.length_labels, below.length_tableLabelsIn]

theorem length_boundariesIn (h : Relabels known t t' cs cs') :
    (Node.boundariesIn cs').length = (Node.boundariesIn cs).length := by
  induction h with
  | nil => rfl
  | column _ _ inductionHypothesis | composite _ _ _ _ _ inductionHypothesis
  | noop _ _ _ inductionHypothesis => exact inductionHypothesis
  | table here _ _ below later =>
    simp only [Node.boundariesIn, Node.boundaries, here.isBatch, List.length_append, later]
    split <;> simp only [List.length_cons, below]

/-- The batch boundaries of two plans stand side by side. -/
theorem zip_boundariesIn {u u' : Table} (here : u.Relabelled u')
    (below : Relabels known u u' ds ds') :
    (Node.boundariesIn (.table u ds :: cs)).zip (Node.boundariesIn (.table u' ds' :: cs')) =
      (if u.isBatch then [((u, ds), (u', ds'))] else []) ++
        (Node.boundariesIn ds).zip (Node.boundariesIn ds') ++
        (Node.boundariesIn cs).zip (Node.boundariesIn cs') := by
  have lengths := below.length_boundariesIn
  simp only [Node.boundariesIn, Node.boundaries, here.isBatch]
  split
  · rw [List.zip_append (by rw [List.length_cons, List.length_cons, lengths]), List.zip_cons_cons]
    rfl
  · rw [List.zip_append lengths.symm]
    rfl

theorem at_boundaries (h : Relabels known t t' cs cs') :
    ∀ p ∈ (Node.boundariesIn cs).zip (Node.boundariesIn cs'),
      p.1.1.Relabelled p.2.1 ∧ Relabels known p.1.1 p.2.1 p.1.2 p.2.2 := by
  induction h with
  | nil => exact fun _ member => (List.not_mem_nil member).elim
  | column _ _ inductionHypothesis | composite _ _ _ _ _ inductionHypothesis
  | noop _ _ _ inductionHypothesis => exact inductionHypothesis
  | table here below _ belowHypothesis laterHypothesis =>
    rw [zip_boundariesIn here below, List.forall_mem_append, List.forall_mem_append]
    refine ⟨⟨fun p member => ?_, belowHypothesis⟩, laterHypothesis⟩
    split at member
    · rw [List.mem_singleton.mp member]
      exact ⟨here, below⟩
    · cases member

end Relabels

/-- Two tables, or two fields without one, that differ in labels with all below them. -/
inductive Node.Relabelled (known : (String → String) → Prop) : Node → Node → Prop
  | table {t t' : Table} {cs cs' : List Node} (here : t.Relabelled t')
    (below : Relabels known t t' cs cs') : Node.Relabelled known (.table t cs) (.table t' cs')
  | noop (fieldName : String) (location : Location) :
    Node.Relabelled known (.noop fieldName location) (.noop fieldName location)

/-- The tables that start statements are related in their places. -/
theorem Node.Relabelled.at_statementRoots {known : (String → String) → Prop} {root root' : Node}
    (h : root.Relabelled known root') : ∀ p ∈ root.statementRoots.zip root'.statementRoots,
      p.1.1.Relabelled p.2.1 ∧ Relabels known p.1.1 p.2.1 p.1.2 p.2.2 := by
  cases h with
  | noop _ _ => exact fun _ member => (List.not_mem_nil member).elim
  | table here below => exact List.forall_mem_cons.mpr ⟨⟨here, below⟩, below.at_boundaries⟩

end TreeQuery.Plan
