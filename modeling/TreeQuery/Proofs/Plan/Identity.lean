import TreeQuery.Proofs.Plan.Columns
import TreeQuery.Proofs.Plan.Walk
import TreeQuery.Proofs.Shape

/-!
By which columns the objects of a planned table are told apart: by its unique key, and in a batch
also by the key by which children are handed to their parents. Nothing that is selected adds to
them, so that every table of a plan has a shape.
-/

namespace TreeQuery

open Plan (Node Table)

namespace Shape

variable {path : String} {fields fields' : List (String × ShapeField)}

theorem identityOf_concat_nested (name : String) (s : Shape) (many : Bool)
    (fields : List (String × ShapeField)) :
    identityOf (fields ++ [(name, .nested s many)]) = identityOf fields := by
  induction fields with
  | nil => rfl
  | cons f fields inductionHypothesis =>
    obtain ⟨m, f⟩ := f
    rcases f with ⟨b, _ | _⟩ | ⟨s, many⟩ <;>
      simp only [List.cons_append, identityOf, inductionHypothesis]

/-- Nodes by which nothing is told apart leave the identity as it is. -/
theorem identityOf_ofChildren {nodes : List Node} (plain : Plan.Plain nodes)
    (below : ofChildren path fields nodes = .ok fields') :
    identityOf fields' = identityOf fields := by
  induction nodes generalizing fields with
  | nil =>
    cases below
    rfl
  | cons n nodes inductionHypothesis =>
    obtain ⟨own, others⟩ := List.forall_mem_cons.mp plain
    cases n with
    | column c =>
      have single : c.isIdentity = false := own
      rw [ofChildren, single] at below
      rw [inductionHypothesis others below, identityOf_addColumn]
    | composite c => cases own
    | noop name l => exact inductionHypothesis others below
    | table t children =>
      rw [ofChildren] at below
      split at below
      · rw [inductionHypothesis others below, identityOf_addColumn]
      · obtain ⟨nested, _, below⟩ := bind_eq_ok.mp below
        rw [inductionHypothesis others below, identityOf_concat_nested]

theorem ofChildren_append {nodes nodes' : List Node} :
    ofChildren path fields (nodes ++ nodes') =
      ofChildren path fields nodes >>= (fun made => ofChildren path made nodes') := by
  induction nodes generalizing fields with
  | nil => rfl
  | cons n nodes inductionHypothesis =>
    cases n with
    | column c | composite c | noop name l => exact inductionHypothesis
    | table t children =>
      simp only [List.cons_append, ofChildren]
      split
      · exact inductionHypothesis
      · simp only [inductionHypothesis, bind_assoc]

theorem names_addColumn (n a : String) (i : Bool) (fields : List (String × ShapeField)) :
    (addColumn n a i fields).map Prod.fst =
      if n ∈ fields.map Prod.fst then fields.map Prod.fst else fields.map Prod.fst ++ [n] := by
  induction fields with
  | nil => rfl
  | cons f fields inductionHypothesis =>
    obtain ⟨m, f⟩ := f
    rw [addColumn]
    by_cases same : m = n
    · simp [same]
    · rw [if_neg same, List.map_cons, List.map_cons, inductionHypothesis]
      by_cases later : n ∈ fields.map Prod.fst <;> simp [later, Ne.symm same]

theorem names_addColumn_nodup (n a : String) (i : Bool) (distinct : (fields.map Prod.fst).Nodup) :
    ((addColumn n a i fields).map Prod.fst).Nodup := by
  rw [names_addColumn]
  split
  · exact distinct
  · rename_i fresh
    refine List.nodup_append.mpr ⟨distinct, List.nodup_singleton n, ?_⟩
    intro m member m' last same
    exact fresh (List.mem_singleton.mp last ▸ same ▸ member)

theorem names_ofChildren_nodup {nodes : List Node} (leaves : Plan.Leaves nodes)
    (distinct : (fields.map Prod.fst).Nodup) (below : ofChildren path fields nodes = .ok fields') :
    (fields'.map Prod.fst).Nodup := by
  induction nodes generalizing fields with
  | nil =>
    cases below
    exact distinct
  | cons n nodes inductionHypothesis =>
    obtain ⟨own, others⟩ := List.forall_mem_cons.mp leaves
    cases n with
    | column c | composite c =>
      exact inductionHypothesis others (names_addColumn_nodup _ _ _ distinct) below
    | noop name l => exact inductionHypothesis others distinct below
    | table t children => cases own

/-- A column of identity makes the column one that stands under its name. -/
theorem mem_identityOf_addColumn (distinct : (fields.map Prod.fst).Nodup) (n a : String)
    {l : String} : l ∈ identityOf (addColumn n a true fields) ↔
      l ∈ identityOf fields ∨ labelAt? (addColumn n a true fields) n = some (some l) := by
  induction fields with
  | nil => simp [addColumn, identityOf, labelAt?, Fields.last?, ShapeField.label?, eq_comm]
  | cons f fields inductionHypothesis =>
    obtain ⟨m, f⟩ := f
    obtain ⟨fresh, others⟩ := List.nodup_cons.mp distinct
    rw [addColumn]
    by_cases same : m = n
    · obtain rfl := same
      have last : labelAt? ((m, f.orIdentity true) :: fields) m = some f.label? := by
        rw [labelAt?, Fields.last?, Fields.last?_eq_none.mpr fresh]
        simp
      rw [if_pos rfl, last]
      rcases f with ⟨b, _ | _⟩ | ⟨s, many⟩ <;>
        simp [identityOf, ShapeField.orIdentity, ShapeField.label?, eq_comm, or_comm]
    · have last : labelAt? ((m, f) :: addColumn n a true fields) n =
          labelAt? (addColumn n a true fields) n := by
        rw [labelAt?, labelAt?, Fields.last?, if_neg same, Option.or_none]
      rw [if_neg same, last]
      rcases f with ⟨b, _ | _⟩ | ⟨s, many⟩ <;>
        simp [identityOf, inductionHypothesis others, or_assoc]

end Shape

namespace Plan

/-- The label of a table's unique key, the first column by which its objects are told apart. -/
def Node.uniqueLabel? (nodes : List Node) : Option String :=
  (nodes.find? Node.identifies).bind (fun n => n.entry?.map Prod.snd)

/-- The label of the key by which the children of a batch are handed to their parents. -/
def Table.linkLabel? (t : Table) (nodes : List Node) : Option String :=
  t.batchKeys?.bind (fun keys => Node.firstLabel? nodes keys.thisKey.fieldName)

variable {Ctx : Type} {s : Schema Ctx} {cx : Ctx}

theorem Walk.plain {type : ObjectType Ctx} {config : TableConfig Ctx} {t : Table}
    {xs : List Selection} {nodes : List Node} {ns ns' : Namespace}
    (h : Walk s cx type config t xs ns nodes ns') : Plain nodes := by
  induction h with
  | nil => exact fun n member => (List.not_mem_nil member).elim
  | leaves steps _ later => exact List.forall_mem_append.mpr ⟨steps.columns.2, later⟩
  | table _ _ _ _ _ _ later => exact List.forall_mem_cons.mpr ⟨rfl, later⟩

theorem headNodes_parts {config : TableConfig Ctx} {t : Table} {typeName : String}
    {nodes : List Node} {ns ns' : Namespace}
    (h : (headNodes cx typeName config t).run ns = .ok (nodes, ns')) :
    ∃ first middle, nodes = first :: middle ++ batchNodes t ∧ first.identifies = true ∧
      Leaves (first :: middle) ∧ Plain middle := by
  obtain ⟨identity, _, hi, h⟩ := run_bind_ok.mp h
  obtain ⟨always, _, ha, h⟩ := run_bind_ok.mp h
  obtain ⟨paging, _, hp, h⟩ := run_bind_ok.mp h
  obtain ⟨rfl, _⟩ := run_pure_ok.mp h
  have leaves : Leaves (always ++ paging) :=
    leaves_append (plainColumns_leaves ha) (pagingNodes_leaves hp)
  have plain : Plain (always ++ paging) :=
    List.forall_mem_append.mpr ⟨(plainColumns_ok ha).2, (pagingNodes_ok hp).2.1⟩
  exact ⟨identity, always ++ paging, rfl, (identityNode_ok hi).2,
    leaves_cons (identityNode_leaf hi) leaves, plain⟩

/-- A planned table has its unique key first. By what comes then nothing is told apart, but that in
a batch the key of its children stands among the columns that it always has. -/
inductive Table.Headed (t : Table) : List Node → Prop
  | intro {first : Node} {middle below : List Node} (identifies : first.identifies = true)
      (leaves : Leaves (first :: middle)) (plain : Plain middle) (others : Plain below) :
      t.Headed (first :: middle ++ batchNodes t ++ below)

theorem Table.Declared.headed {t : Table} {nodes : List Node} (h : t.Declared s cx nodes) :
    t.Headed nodes := by
  cases h with
  | intro _ _ _ planned =>
    obtain ⟨first, middle, rfl, identifies, leaves, plain⟩ := headNodes_parts planned.head
    exact .intro identifies leaves plain planned.walk.plain

/-- The column that identifies is the first that the shape of the table has. -/
theorem ofChildren_first (path : String) {first : Node} (identifies : first.identifies = true) :
    ∃ name u, (∀ rest, Node.uniqueLabel? (first :: rest) = some u) ∧
      ∀ rest, Shape.ofChildren path [] (first :: rest) =
        Shape.ofChildren path [(name, .column (path ++ u) true)] rest := by
  cases first with
  | column c =>
    have own : c.isIdentity = true := identifies
    refine ⟨c.fieldName, c.label, fun rest => ?_, fun rest => ?_⟩
    · rw [Node.uniqueLabel?, List.find?_cons_of_pos identifies]
      rfl
    · rw [Shape.ofChildren, own, Shape.addColumn]
  | composite c => exact ⟨c.fieldName, c.label, fun _ => rfl, fun _ => rfl⟩
  | noop _ _ | table _ _ => cases identifies

variable {t : Table} {nodes : List Node}

/-- What is read under a name that some leaves have. -/
theorem labelAt?_leaves {path : String} {fields : List (String × ShapeField)}
    (leaves : Leaves nodes) (made : Shape.ofChildren path [] nodes = .ok fields) (name : String) :
    Shape.labelAt? fields name =
      (Node.firstLabel? nodes name).map (fun label => some (path ++ label)) := by
  have unjoined : Node.joinedNames nodes = [] := by
    rw [Node.joinedNames_eq, Node.tables_of_leaves leaves]
    rfl
  rw [Shape.labelAt?_ofChildren name made, unjoined, if_neg List.not_mem_nil]
  exact Option.none_or

theorem firstLabel?_append (a b : List Node) (name : String) :
    Node.firstLabel? (a ++ b) name = (Node.firstLabel? a name).or (Node.firstLabel? b name) :=
  List.findSome?_append

/-- The key by which the children of a batch are handed over is among the columns it always has. -/
theorem firstLabel?_batchNodes {keys : Batch} (batch : t.batchKeys? = some keys) :
    Node.firstLabel? (batchNodes t) keys.thisKey.fieldName = some keys.thisKey.label := by
  rw [batchNodes, batch]
  simp [Node.firstLabel?, Node.labelFor?]

theorem Table.Headed.isSome_linkLabel? (h : t.Headed nodes) :
    (t.linkLabel? nodes).isSome = t.isBatch := by
  cases h with
  | @intro first middle below =>
    rw [t.isBatch_eq, Table.linkLabel?]
    cases batch : t.batchKeys? with
    | none => rfl
    | some keys =>
      rw [Option.bind_some, firstLabel?_append, firstLabel?_append, firstLabel?_batchNodes batch,
        Option.or_assoc, Option.some_or, Option.or_some]
      rfl

theorem ofChildren_batchNodes {keys : Batch} (batch : t.batchKeys? = some keys) (path : String)
    (fields : List (String × ShapeField)) : Shape.ofChildren path fields (batchNodes t) =
      .ok (Shape.addColumn keys.thisKey.fieldName (path ++ keys.thisKey.label) true fields) := by
  rw [batchNodes, batch]
  rfl

/-- The objects of a table are told apart by its unique key and, in a batch, by what is read under
the name of its children's key. -/
theorem Table.Headed.mem_identityOf (h : t.Headed nodes) {path : String}
    {fields : List (String × ShapeField)} (made : Shape.ofChildren path [] nodes = .ok fields) :
    ∃ u, Node.uniqueLabel? nodes = some u ∧ ∀ l, l ∈ Shape.identityOf fields ↔
      l = path ++ u ∨ ∃ link, t.linkLabel? nodes = some link ∧ l = path ++ link := by
  cases h with
  | @intro first middle below identifies leaves plain others =>
    obtain ⟨name, u, unique, head⟩ := ofChildren_first path identifies
    rw [Shape.ofChildren_append] at made
    obtain ⟨own, made, selected⟩ := bind_eq_ok.mp made
    have ownLeaves : Leaves (first :: middle ++ batchNodes t) :=
      leaves_append leaves (batchNodes_leaves t)
    have read := labelAt?_leaves ownLeaves made
    rw [Shape.ofChildren_append] at made
    obtain ⟨columns, made, linked⟩ := bind_eq_ok.mp made
    have names := Shape.names_ofChildren_nodup leaves (by exact List.nodup_nil) made
    rw [head] at made
    have single : Shape.identityOf columns = [path ++ u] := Shape.identityOf_ofChildren plain made
    refine ⟨u, unique _, fun l => ?_⟩
    rw [Shape.identityOf_ofChildren others selected]
    cases batch : t.batchKeys? with
    | none =>
      have alone : batchNodes t = [] := by rw [batchNodes, batch]
      rw [alone] at linked
      cases linked
      simp [single, Table.linkLabel?, batch]
    | some keys =>
      rw [ofChildren_batchNodes batch] at linked
      cases linked
      rw [Shape.mem_identityOf_addColumn names, single, List.mem_singleton, read,
        Table.linkLabel?, batch, Option.bind_some, firstLabel?_append _ below,
        firstLabel?_append, firstLabel?_batchNodes batch, Option.or_assoc, Option.some_or,
        Option.map_eq_some_iff]
      exact or_congr_right (exists_congr (fun link => and_congr_right (fun _ => by
        rw [Option.some.injEq, eq_comm])))

mutual

/-- Every table of a plan has a shape, wherever the labels of its columns start. -/
theorem shaped_of_headed : (n : Node) → n.Everywhere Table.Headed → n.table?.isSome →
    ∀ path, ∃ shape, Shape.ofNode path n = .ok shape
  | .table t children, headed, _, path => by
    obtain ⟨fields, made⟩ := shapedIn_of_headed children headed.2 path []
    obtain ⟨u, _, identity⟩ := headed.1.mem_identityOf made
    have member : path ++ u ∈ Shape.identityOf fields := (identity _).mpr (.inl rfl)
    exact ⟨_, Shape.ofNode_table_ok.mpr ⟨fields, made, List.ne_nil_of_mem member, rfl⟩⟩

theorem shapedIn_of_headed : (nodes : List Node) → Node.EverywhereIn Table.Headed nodes →
    ∀ path fields, ∃ fields', Shape.ofChildren path fields nodes = .ok fields'
  | [], _, _, fields => ⟨fields, rfl⟩
  | .column _ :: r, headed, path, _ | .composite _ :: r, headed, path, _
  | .noop _ _ :: r, headed, path, _ => shapedIn_of_headed r headed.2 path _
  | .table t children :: r, headed, path, fields => by
    rw [Shape.ofChildren]
    split
    · exact shapedIn_of_headed r headed.2 path _
    · obtain ⟨nested, shaped⟩ := shaped_of_headed (.table t children) headed.1 rfl
        (path ++ t.label ++ "__")
      obtain ⟨fields', made⟩ := shapedIn_of_headed r headed.2 path
        (fields ++ [(t.fieldName, .nested nested t.many)])
      exact ⟨fields', bind_eq_ok.mpr ⟨nested, shaped, made⟩⟩

end

mutual

/-- What holds of all tables of a plan holds of those below each of its tables. -/
theorem everywhere_subtrees {P : Table → List Node → Prop} : (n : Node) → n.Everywhere P →
    n.Everywhere (fun t nodes => (Node.table t nodes).Everywhere P)
  | .table _ children, h => ⟨h, everywhereIn_subtrees children h.2⟩
  | .column _, _ | .composite _, _ | .noop _ _, _ => trivial

theorem everywhereIn_subtrees {P : Table → List Node → Prop} : (nodes : List Node) →
    Node.EverywhereIn P nodes →
    Node.EverywhereIn (fun t nodes => (Node.table t nodes).Everywhere P) nodes
  | [], _ => trivial
  | n :: r, h => ⟨everywhere_subtrees n h.1, everywhereIn_subtrees r h.2⟩

end

theorem plan_headed {minify : Bool} {x : Selection} {root : Node}
    (planned : s.plan minify cx x = .ok root) : root.Everywhere Table.Headed :=
  Node.everywhere_mono (fun _ _ declared => declared.headed) root (plan_declared planned)

end Plan

end TreeQuery
