import TreeQuery.Proofs.Hydration.Complete

/-!
Hydration of the same cells under other labels. Two shapes that differ in the labels of their
columns fold rows into the same objects if each row of one kind has, under the labels of its shape,
what a row of the other kind has under those of the other.
-/

namespace TreeQuery

namespace Shape

/-- The fields of two shapes, one by one. They differ only in the labels that columns are read
under, which are related. -/
inductive SameFields (L : String → String → Prop) :
    List (String × ShapeField) → List (String × ShapeField) → Prop
  | nil : SameFields L [] []
  | column (name : String) {a a' : String} (read : L a a') (isIdentity : Bool)
      {fields fields' : List (String × ShapeField)} (rest : SameFields L fields fields') :
      SameFields L ((name, .column a isIdentity) :: fields)
        ((name, .column a' isIdentity) :: fields')
  | nested (name : String) {inner inner' : List (String × ShapeField)}
      (below : SameFields L inner inner') (many : Bool)
      {fields fields' : List (String × ShapeField)} (rest : SameFields L fields fields') :
      SameFields L ((name, .nested (.mk inner) many) :: fields)
        ((name, .nested (.mk inner') many) :: fields')

namespace SameFields

variable {L : String → String → Prop} {fields fields' : List (String × ShapeField)}

theorem mono {M : String → String → Prop} (h : SameFields L fields fields')
    (weaker : ∀ a a', L a a' → M a a') : SameFields M fields fields' := by
  induction h with
  | nil => exact .nil
  | column name read isIdentity _ inductionHypothesis =>
    exact .column name (weaker _ _ read) isIdentity inductionHypothesis
  | nested name _ many _ below later => exact .nested name below many later

theorem identityOf (h : SameFields L fields fields') :
    List.Forall₂ L (identityOf fields) (identityOf fields') := by
  induction h with
  | nil => exact .nil
  | column name read isIdentity _ inductionHypothesis =>
    cases isIdentity with
    | true => exact .cons read inductionHypothesis
    | false => exact inductionHypothesis
  | nested name _ many _ _ later => exact later

/-- A column that is added to both takes the same place. -/
theorem addColumn (h : SameFields L fields fields') (name : String) {a a' : String} (read : L a a')
    (isIdentity : Bool) : SameFields L (addColumn name a isIdentity fields)
      (addColumn name a' isIdentity fields') := by
  induction h with
  | nil => exact .column name read isIdentity .nil
  | column n here i rest inductionHypothesis =>
    rw [Shape.addColumn, Shape.addColumn]
    split
    · exact .column n here (i || isIdentity) rest
    · exact .column n here i inductionHypothesis
  | nested n below many rest _ inductionHypothesis =>
    rw [Shape.addColumn, Shape.addColumn]
    split
    · exact .nested n below many rest
    · exact .nested n below many inductionHypothesis

theorem concat_nested (h : SameFields L fields fields') (name : String)
    {inner inner' : List (String × ShapeField)} (below : SameFields L inner inner') (many : Bool) :
    SameFields L (fields ++ [(name, .nested (.mk inner) many)])
      (fields' ++ [(name, .nested (.mk inner') many)]) := by
  induction h with
  | nil => exact .nested name below many .nil
  | column n here i _ inductionHypothesis => exact .column n here i inductionHypothesis
  | nested n inside i _ _ inductionHypothesis => exact .nested n inside i inductionHypothesis

end SameFields

end Shape

namespace Hydration

open Shape (SameFields identityOf)

/-- Each row has under the one label what the row beside it has under the other. -/
def SameCells (pairs : List (Row × Row)) (a a' : String) : Prop :=
  ∀ p ∈ pairs, p.1.value a = p.2.value a'

variable {pairs : List (Row × Row)}

theorem SameCells.keyOf_eq {labels labels' : List String}
    (same : List.Forall₂ (SameCells pairs) labels labels') {p : Row × Row} (member : p ∈ pairs) :
    keyOf labels p.1 = keyOf labels' p.2 := by
  induction same with
  | nil => rfl
  | cons first _ inductionHypothesis =>
    rw [keyOf, keyOf, List.map_cons, List.map_cons, first p member]
    exact congrArg _ inductionHypothesis

/-- Rows side by side are grouped alike. -/
theorem groupsOf_pairs {labels labels' : List String}
    (same : List.Forall₂ (SameCells pairs) labels labels') :
    ∃ groups : List (Identity × List (Row × Row)), (∀ g ∈ groups, g.2 ⊆ pairs) ∧
      groupsOf labels (pairs.map Prod.fst) = groups.map (fun g => (g.1, g.2.map Prod.fst)) ∧
      groupsOf labels' (pairs.map Prod.snd) = groups.map (fun g => (g.1, g.2.map Prod.snd)) := by
  have keys :
      (pairs.map Prod.snd).map (keyOf labels') = (pairs.map Prod.fst).map (keyOf labels) := by
    rw [List.map_map, List.map_map]
    exact List.map_congr_left (fun p member => (SameCells.keyOf_eq same member).symm)
  have matched : matchedKeys labels' (pairs.map Prod.snd) =
      matchedKeys labels (pairs.map Prod.fst) := by
    rw [matchedKeys, matchedKeys, keys]
  -- the pairs are grouped by the key of their left row, which is also that of their right row
  refine ⟨(distinct (matchedKeys labels (pairs.map Prod.fst))).map
    (fun k => (k, pairs.filter (fun p => keyOf labels p.1 = k))), ?_, ?_, ?_⟩
  · intro g member
    obtain ⟨k, _, rfl⟩ := List.mem_map.mp member
    exact List.filter_subset_self pairs
  · rw [groupsOf, List.map_map]
    apply List.map_congr_left
    intro k _
    rw [List.filter_map]
    rfl
  · rw [groupsOf, List.map_map, matched]
    apply List.map_congr_left
    intro k _
    have part : pairs.filter (fun p => keyOf labels' p.2 = k) =
        pairs.filter (fun p => keyOf labels p.1 = k) := by
      apply List.filter_congr
      intro p member
      rw [SameCells.keyOf_eq same member]
    rw [List.filter_map]
    exact congrArg (fun own => (k, own.map Prod.snd)) part

variable {fields fields' : List (String × ShapeField)}

/-- The objects are the same if they are told apart alike, and have the same fields. -/
theorem values_eq_of_fieldsOf
    (identities : List.Forall₂ (SameCells pairs) (identityOf fields) (identityOf fields'))
    (each : ∀ own ⊆ pairs,
      fieldsOf fields (own.map Prod.fst) = fieldsOf fields' (own.map Prod.snd)) :
    values (.mk fields) (pairs.map Prod.fst) = values (.mk fields') (pairs.map Prod.snd) := by
  obtain ⟨groups, within, left, right⟩ := groupsOf_pairs identities
  rw [values, values, left, right, List.map_map, List.map_map]
  apply List.map_congr_left
  intro g member
  rw [Function.comp_apply, Function.comp_apply, each g.2 (within g member)]

theorem fieldsOf_pairs {L : String → String → Prop} (same : SameFields L fields fields')
    {pairs : List (Row × Row)} (cells : ∀ a a', L a a' → SameCells pairs a a') :
    fieldsOf fields (pairs.map Prod.fst) = fieldsOf fields' (pairs.map Prod.snd) := by
  induction same generalizing pairs with
  | nil => rfl
  | @column name a a' read isIdentity _ _ _ inductionHypothesis =>
    have here : valueOf (.column a isIdentity) (pairs.map Prod.fst) =
        valueOf (.column a' isIdentity) (pairs.map Prod.snd) := by
      cases pairs with
      | nil => rfl
      | cons p pairs => exact cells _ _ read p (List.mem_cons_self ..)
    rw [fieldsOf, fieldsOf, inductionHypothesis cells, here]
  | nested name below many _ belowHypothesis laterHypothesis =>
    have inner := values_eq_of_fieldsOf ((below.mono cells).identityOf)
      (fun own within => belowHypothesis
        (fun a a' read p member => cells a a' read p (within member)))
    rw [fieldsOf, fieldsOf, laterHypothesis cells, valueOf, valueOf, inner]

/-- Rows side by side fold into the same objects. -/
theorem values_pairs (same : SameFields (SameCells pairs) fields fields') :
    values (.mk fields) (pairs.map Prod.fst) = values (.mk fields') (pairs.map Prod.snd) :=
  values_eq_of_fieldsOf same.identityOf
    (fun _ within => fieldsOf_pairs same (fun _ _ cells p member => cells p (within member)))

end Hydration

end TreeQuery
