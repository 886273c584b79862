import TreeQuery.Proofs.Fields
import TreeQuery.Proofs.Plan.WellFormed
import TreeQuery.Shape

/-!
What the shape of a table has under a name. A joined table of the name comes before all columns, and
of the columns the first one stays.
-/

namespace TreeQuery

open Plan (Node Table)
open Fields (last?)

namespace Plan.Node

/-- The label of the column that a node adds to the objects of its table under a name. -/
def labelFor? (name : String) : Node → Option String
  | .column c => if c.fieldName = name then some c.label else none
  | .composite c => if c.fieldName = name then some c.label else none
  | .table t _ => t.batchKeys?.bind
      (fun keys => if keys.parentKey.fieldName = name then some keys.parentKey.label else none)
  | .noop _ _ => none

def firstLabel? (nodes : List Node) (name : String) : Option String :=
  nodes.findSome? (labelFor? name)

theorem firstLabel?_cons (n : Node) (r : List Node) (name : String) :
    firstLabel? (n :: r) name = (labelFor? name n).or (firstLabel? r name) := by
  rw [firstLabel?, List.findSome?_cons]
  cases labelFor? name n <;> rfl

theorem joinedNames_leaf {n : Node} (leaf : n.table? = none) (r : List Node) :
    joinedNames (n :: r) = joinedNames r := by
  rw [joinedNames, List.filterMap_cons, leaf]
  rfl

end Plan.Node

namespace ShapeField

theorem orIdentity_false (f : ShapeField) : f.orIdentity false = f := by
  cases f with
  | column a i => rw [orIdentity, Bool.or_false]
  | nested s many => rfl

/-- The label of a column. -/
def label? : ShapeField → Option String
  | .column a _ => some a
  | .nested _ _ => none

@[simp] theorem label?_orIdentity (f : ShapeField) (i : Bool) :
    (f.orIdentity i).label? = f.label? := by
  cases f <;> rfl

end ShapeField

namespace Shape

/-- A table has a shape if the nodes below it have, and some column is identity. -/
theorem ofNode_table_ok {path : String} {t : Table} {children : List Node} {s : Shape} :
    ofNode path (.table t children) = .ok s ↔ ∃ fields,
      ofChildren path [] children = .ok fields ∧ identityOf fields ≠ [] ∧ s = .mk fields := by
  rw [ofNode, bind_eq_ok]
  refine exists_congr (fun fields => and_congr_right (fun _ => ?_))
  cases identityOf fields with
  | nil => simp
  | cons a r => simp [eq_comm]

/-- Only one column is ever added under a name. -/
theorem last?_addColumn_of_none {fields : List (String × ShapeField)} {name : String}
    (h : last? fields name = none) (n a : String) (i : Bool) :
    last? (addColumn n a i fields) name = if n = name then some (.column a i) else none := by
  induction fields with
  | nil => rfl
  | cons f fields ih =>
    obtain ⟨m, f⟩ := f
    rw [last?, Option.or_eq_none_iff] at h
    obtain ⟨later, here⟩ := h
    have other : m ≠ name := by simpa using here
    rw [addColumn]
    split
    · rename_i hm
      rw [last?, later, if_neg other, if_neg (hm ▸ other), Option.none_or]
    · rw [last?, ih later, if_neg other, Option.or_none]

/-- What is there already stays, as a column that may now be of identity. -/
theorem last?_addColumn_of_some {fields : List (String × ShapeField)} {name : String}
    {f : ShapeField} (h : last? fields name = some f) (n a : String) (i : Bool) :
    ∃ j, last? (addColumn n a i fields) name = some (f.orIdentity j) := by
  induction fields with
  | nil => cases h
  | cons g fields ih =>
    obtain ⟨m, g⟩ := g
    rw [addColumn]
    rw [last?] at h
    cases hl : last? fields name with
    | some k =>
      rw [hl, Option.some_or] at h
      cases h
      split
      · exact ⟨false, by rw [last?, hl, Option.some_or, ShapeField.orIdentity_false]⟩
      · obtain ⟨j, kept⟩ := ih hl
        exact ⟨j, by rw [last?, kept, Option.some_or]⟩
    | none =>
      rw [hl, Option.none_or] at h
      split at h
      · rename_i hm
        cases h
        split
        · exact ⟨i, by rw [last?, hl, Option.none_or, if_pos hm]⟩
        · rename_i hn
          refine ⟨false, ?_⟩
          rw [last?, last?_addColumn_of_none hl, if_neg (fun h => hn (hm.trans h.symm)),
            Option.none_or, if_pos hm, ShapeField.orIdentity_false]
      · cases h

theorem identityOf_addColumn (name label : String) (fields : List (String × ShapeField)) :
    identityOf (addColumn name label false fields) = identityOf fields := by
  induction fields with
  | nil => rfl
  | cons f fields inductionHypothesis =>
    obtain ⟨n, f⟩ := f
    rw [addColumn]
    split
    · rw [ShapeField.orIdentity_false]
    · rcases f with ⟨a, _ | _⟩ | ⟨s, many⟩
      · exact inductionHypothesis
      · exact congrArg (a :: ·) inductionHypothesis
      · exact inductionHypothesis

/-- A nested field keeps its place against a column of its name. -/
theorem nested_addColumn {name label n : String} {isIdentity many : Bool} {s : Shape}
    {fields : List (String × ShapeField)} (h : last? fields n = some (.nested s many)) :
    last? (addColumn name label isIdentity fields) n = some (.nested s many) := by
  obtain ⟨_, kept⟩ := last?_addColumn_of_some h name label isIdentity
  exact kept

/-- The tables that are joined into fields of their own are nested there. -/
theorem last?_ofChildren : {children : List Node} → {path : String} →
    {fields fields' : List (String × ShapeField)} →
    ofChildren path fields children = .ok fields' → (Node.joinedNames children).Nodup →
    (∀ n s many, n ∉ Node.joinedNames children → last? fields n = some (.nested s many) →
      last? fields' n = some (.nested s many)) ∧
    ∀ t below, .table t below ∈ children → t.isBatch = false → ∃ s,
      ofNode (path ++ t.label ++ "__") (.table t below) = .ok s ∧
      last? fields' t.fieldName = some (.nested s t.many)
  | [], path, fields, fields', h, _ => by
    cases h
    exact ⟨fun _ _ _ _ found => found, by simp⟩
  | .column c :: r, path, fields, fields', h, names => by
    rw [ofChildren] at h
    obtain ⟨kept, joined⟩ := last?_ofChildren h names
    exact ⟨fun n s many hn found => kept n s many hn (nested_addColumn found),
      fun t below ht => joined t below (by simpa using ht)⟩
  | .composite c :: r, path, fields, fields', h, names => by
    rw [ofChildren] at h
    obtain ⟨kept, joined⟩ := last?_ofChildren h names
    exact ⟨fun n s many hn found => kept n s many hn (nested_addColumn found),
      fun t below ht => joined t below (by simpa using ht)⟩
  | .noop _ _ :: r, path, fields, fields', h, names => by
    rw [ofChildren] at h
    obtain ⟨kept, joined⟩ := last?_ofChildren h names
    exact ⟨kept, fun t below ht => joined t below (by simpa using ht)⟩
  | .table t children :: r, path, fields, fields', h, names => by
    rw [ofChildren] at h
    rw [Node.joinedNames_table] at names ⊢
    have batch := t.isBatch_eq
    cases hk : t.batchKeys? with
    | some keys =>
      rw [hk, Option.isSome_some] at batch
      rw [if_pos batch] at names ⊢
      rw [hk] at h
      obtain ⟨kept, joined⟩ := last?_ofChildren h names
      refine ⟨fun n s many hn found => kept n s many hn (nested_addColumn found), ?_⟩
      intro u below hu single
      rcases List.mem_cons.mp hu with same | later
      · obtain ⟨rfl, rfl⟩ := Node.table.inj same
        rw [batch] at single
        cases single
      · exact joined u below later single
    | none =>
      rw [hk, Option.isSome_none] at batch
      rw [if_neg (by simp [batch])] at names ⊢
      rw [hk] at h
      obtain ⟨nested, hn, h⟩ := bind_eq_ok.mp h
      obtain ⟨fresh, names⟩ := List.nodup_cons.mp names
      obtain ⟨kept, joined⟩ := last?_ofChildren h names
      refine ⟨?_, ?_⟩
      · intro n s many hm found
        rw [List.mem_cons, not_or] at hm
        refine kept n s many hm.2 ?_
        rw [Fields.last?_append, last?, last?, if_neg (Ne.symm hm.1)]
        exact found
      · intro u below hu single
        rcases List.mem_cons.mp hu with same | later
        · obtain ⟨rfl, rfl⟩ := Node.table.inj same
          refine ⟨nested, hn, kept _ _ _ fresh ?_⟩
          rw [Fields.last?_append, last?, last?, if_pos rfl]
          rfl
        · exact joined u below later single

/-- The label of the column that is read under a name, none if a nested field is. -/
def labelAt? (fields : List (String × ShapeField)) (name : String) : Option (Option String) :=
  (last? fields name).map ShapeField.label?

/-- A column does not take a name that is there already. -/
theorem labelAt?_addColumn (n a : String) (i : Bool) (fields : List (String × ShapeField))
    (name : String) : labelAt? (addColumn n a i fields) name =
      (labelAt? fields name).or (if n = name then some (some a) else none) := by
  unfold labelAt?
  cases h : last? fields name with
  | none =>
    rw [last?_addColumn_of_none h]
    split <;> rfl
  | some f =>
    obtain ⟨j, kept⟩ := last?_addColumn_of_some h n a i
    simp [kept]

theorem labelAt?_concat_nested (fields : List (String × ShapeField)) (n : String) (s : Shape)
    (many : Bool) (name : String) : labelAt? (fields ++ [(n, .nested s many)]) name =
      if n = name then some none else labelAt? fields name := by
  unfold labelAt?
  rw [Fields.last?_append]
  by_cases h : n = name <;> simp [last?, h, ShapeField.label?]

/-- What stands under a name after the nodes of a table: a joined table of the name, or else what
stood there before, or else the first column of the name. -/
theorem labelAt?_ofChildren (name : String) : {children : List Node} → {path : String} →
    {fields fields' : List (String × ShapeField)} → ofChildren path fields children = .ok fields' →
    labelAt? fields' name = if name ∈ Node.joinedNames children then some none
      else (labelAt? fields name).or
        ((Node.firstLabel? children name).map (fun label => some (path ++ label)))
  | [], path, fields, fields', h => by
    cases h
    simp [Node.joinedNames, Node.firstLabel?]
  | .column c :: r, path, fields, fields', h => by
    rw [ofChildren] at h
    rw [labelAt?_ofChildren name h, labelAt?_addColumn, Option.or_assoc, Node.joinedNames_leaf rfl,
      Node.firstLabel?_cons, Node.labelFor?]
    by_cases hn : c.fieldName = name <;> simp [hn]
  | .composite c :: r, path, fields, fields', h => by
    rw [ofChildren] at h
    rw [labelAt?_ofChildren name h, labelAt?_addColumn, Option.or_assoc, Node.joinedNames_leaf rfl,
      Node.firstLabel?_cons, Node.labelFor?]
    by_cases hn : c.fieldName = name <;> simp [hn]
  | .noop _ _ :: r, path, fields, fields', h => by
    rw [ofChildren] at h
    rw [labelAt?_ofChildren name h, Node.joinedNames_leaf rfl, Node.firstLabel?_cons,
      Node.labelFor?, Option.none_or]
  | .table t below :: r, path, fields, fields', h => by
    rw [ofChildren] at h
    have batch := t.isBatch_eq
    rw [Node.joinedNames_table, Node.firstLabel?_cons, Node.labelFor?]
    cases hk : t.batchKeys? with
    | some keys =>
      rw [hk, Option.isSome_some] at batch
      rw [hk] at h
      rw [labelAt?_ofChildren name h, labelAt?_addColumn, Option.or_assoc, if_pos batch]
      by_cases hn : keys.parentKey.fieldName = name <;> simp [hn]
    | none =>
      rw [hk, Option.isSome_none] at batch
      rw [hk] at h
      obtain ⟨nested, _, h⟩ := bind_eq_ok.mp h
      have joined : ¬t.isBatch = true := by simp [batch]
      rw [labelAt?_ofChildren name h, labelAt?_concat_nested, if_neg joined]
      by_cases hn : t.fieldName = name
      · simp [hn]
      · simp [hn, Ne.symm hn]

end Shape

end TreeQuery
