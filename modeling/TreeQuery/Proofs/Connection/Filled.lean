import TreeQuery.Proofs.Connection.Trimmed

/-!
Converted objects are filled. Each has an entry for every column and every joined table below its
table, at any depth, whether the objects stand alone, in a list or on a page.
-/

namespace TreeQuery

open Fields (last?)
open Plan (Node Paging Table totalColumn)

namespace Plan

/-- The values of a batch are there once the batch is attached. -/
def Table.isHeld (attached : Bool) (t : Table) : Bool := attached || !t.isBatch

namespace Node

/-- The name that a node has in the objects of its table. -/
def entryName? (attached : Bool) : Node → Option String
  | .table t _ => if t.isHeld attached then some t.fieldName else none
  | .column c => some c.fieldName
  | .composite c => some c.fieldName
  | .noop _ _ => none

/-- What holds of a table if it holds of all nodes below it holds of every node. -/
theorem below_induction {P : Node → Prop}
    (table : ∀ t children, (∀ n ∈ children, P n) → P (.table t children))
    (leaf : ∀ n, n.table? = none → P n) : (n : Node) → P n
  | .table t children => table t children (fun n _ => below_induction table leaf n)
  | .column c => leaf (.column c) rfl
  | .composite c => leaf (.composite c) rfl
  | .noop name l => leaf (.noop name l) rfl

end Node

end Plan

/-- An object with an entry for each column and each table among some nodes, where the objects in
the values of these tables have the same for the nodes below. A page has the count of all rows in
place of a column. -/
inductive Filled (attached : Bool) : List Node → Fields Value → Prop
  | intro {nodes : List Node} {o : Fields Value}
      (present : ∀ n ∈ nodes, ∀ name, n.entryName? attached = some name → name ≠ totalColumn →
        name ∈ Fields.names o)
      (inside : ∀ t children w, .table t children ∈ nodes → t.isHeld attached →
        Fields.get? o t.fieldName = some w → ∀ p ∈ w.objects, Filled attached children p) :
      Filled attached nodes o

namespace Filled

variable {attached : Bool} {nodes : List Node} {o : Fields Value}

theorem present (h : Filled attached nodes o) {n : Node} (member : n ∈ nodes) {name : String}
    (named : n.entryName? attached = some name) (other : name ≠ totalColumn) :
    name ∈ Fields.names o := by
  cases h with
  | intro present inside => exact present n member name named other

theorem inside (h : Filled attached nodes o) {t : Table} {children : List Node} {w : Value}
    (member : .table t children ∈ nodes) (held : t.isHeld attached)
    (read : Fields.get? o t.fieldName = some w) : ∀ p ∈ w.objects, Filled attached children p := by
  cases h with
  | intro present inside => exact inside t children w member held read

/-- Nobody misses the count of all rows. -/
theorem withoutTotal (h : Filled attached nodes o) :
    Filled attached nodes (Fields.erase o totalColumn) := by
  refine .intro (fun n member name named other => ?_) (fun t children w member held read => ?_)
  · have present := Fields.isSome_get?.mpr (h.present member named other)
    rw [← Fields.isSome_get?, Fields.get?_erase, if_neg (Ne.symm other)]
    exact present
  · rw [Fields.get?_erase] at read
    split at read
    · cases read
    · exact h.inside member held read

end Filled

namespace Shape

/-- A shape has a field for each column and each joined table. -/
theorem names_ofChildren {path : String} {children : List Node}
    {fields : List (String × ShapeField)} (shaped : ofChildren path [] children = .ok fields)
    {n : Node} (member : n ∈ children) {name : String} (named : n.entryName? false = some name) :
    name ∈ Fields.names fields := by
  have under := labelAt?_ofChildren name shaped
  have found : labelAt? fields name ≠ none := by
    rw [under]
    split
    · exact Option.some_ne_none _
    rename_i unjoined
    obtain ⟨label, own⟩ : ∃ label, n.labelFor? name = some label := by
      cases n with
      | table t below =>
        rw [Node.entryName?] at named
        split at named
        · rename_i held
          cases named
          have single : t.isBatch = false := by simpa [Table.isHeld] using held
          exact (unjoined (Node.mem_joinedNames member single)).elim
        · cases named
      | column c | composite c =>
        cases named
        exact ⟨c.label, if_pos rfl⟩
      | noop _ _ => cases named
    have first : (Node.firstLabel? children name).isSome :=
      List.findSome?_isSome_iff.mpr ⟨n, member, by rw [own]; rfl⟩
    obtain ⟨label, first⟩ := Option.isSome_iff_exists.mp first
    rw [first]
    exact Option.some_ne_none _
  by_contra absent
  rw [labelAt?, Fields.last?_eq_none.mpr absent] at found
  exact found rfl

end Shape

namespace Hydration

theorem present_objects {path : String} {t : Table} {children : List Node} {shape : Shape}
    {rows : List Row} {items : List Value}
    (shaped : Shape.ofNode path (.table t children) = .ok shape)
    (hydrated : objects shape rows = .ok items) {o : Fields Value} (item : .object o ∈ items)
    {n : Node} (member : n ∈ children) {name : String} (named : n.entryName? false = some name) :
    name ∈ Fields.names o := by
  obtain ⟨fields, below, _, rfl⟩ := Shape.ofNode_table_ok.mp shaped
  obtain ⟨_, _, same, _, _, pairs, _, _, read, rfl⟩ := (mem_objects hydrated).mp item
  cases same
  have among := Shape.names_ofChildren below member named
  have names : Fields.names pairs = Fields.names fields := names_objectFields read
  rw [← Fields.isSome_get?, Fields.get?_ofPairs, Option.isSome_iff_ne_none, ne_eq,
    Fields.last?_eq_none, names, not_not]
  exact among

end Hydration

namespace Connection

/-- An object with the values of its joined tables converted and everything else as it was. -/
structure Converted (nodes : List Node) (o o' : Fields Value) : Prop where
  names : Fields.names o' = Fields.names o
  others : ∀ name ∉ Node.joinedNames nodes, Fields.get? o' name = Fields.get? o name
  joined : ∀ t children, .table t children ∈ nodes → t.isBatch = false →
    ∀ w', Fields.get? o' t.fieldName = some w' →
      ∃ w, Fields.get? o t.fieldName = some w ∧ convert (.table t children) w = .ok w'

namespace Converted

variable {nodes : List Node} {n : Node} {t : Table} {children : List Node} {o o' : Fields Value}

theorem refl (o : Fields Value) : Converted [] o o :=
  ⟨rfl, fun _ _ => rfl, fun _ _ member => (List.not_mem_nil member).elim⟩

/-- A node that is not joined has nothing to convert. -/
theorem skip (later : Converted nodes o o')
    (apart : ∀ t children, n = .table t children → t.isBatch = true) :
    Converted (n :: nodes) o o' := by
  have names : Node.joinedNames (n :: nodes) = Node.joinedNames nodes := by
    cases n with
    | table t children => rw [Node.joinedNames_table, if_pos (apart t children rfl)]
    | column _ | composite _ | noop _ _ => rfl
  refine ⟨later.names, names ▸ later.others, fun u below member single => ?_⟩
  cases member with
  | head => cases single.symm.trans (apart u below rfl)
  | tail _ member => exact later.joined u below member single

section Joined

variable (single : t.isBatch = false) (fresh : t.fieldName ∉ Node.joinedNames nodes)
include single fresh

/-- Nothing is converted where an object has nothing. -/
theorem absent (later : Converted nodes o o') (read : Fields.get? o t.fieldName = none) :
    Converted (.table t children :: nodes) o o' := by
  refine ⟨later.names, fun name other => later.others name ?_, fun u below member own w found => ?_⟩
  · rw [Node.joinedNames_table, if_neg (by simp [single])] at other
    exact fun later => other (List.mem_cons_of_mem _ later)
  · cases member with
    | head => cases ((later.others t.fieldName fresh).trans read).symm.trans found
    | tail _ member => exact later.joined u below member own w found

/-- What was converted for a table is left alone by the tables that come later. -/
theorem insert {w w' : Value} (later : Converted nodes (Fields.insert o t.fieldName w') o')
    (read : Fields.get? o t.fieldName = some w) (made : convert (.table t children) w = .ok w') :
    Converted (.table t children :: nodes) o o' := by
  have put : Fields.get? o' t.fieldName = some w' := by
    rw [later.others t.fieldName fresh, Fields.get?_insert, if_pos rfl]
  have present : t.fieldName ∈ Fields.names o := by
    rw [← Fields.isSome_get?, read, Option.isSome_some]
  refine ⟨?_, fun name other => ?_, fun u below member own u' found => ?_⟩
  · rw [later.names, Fields.names_insert, if_pos present]
  · rw [Node.joinedNames_table, if_neg (by simp [single]), List.mem_cons, not_or] at other
    rw [later.others name other.2, Fields.get?_insert, if_neg (Ne.symm other.1)]
  · cases member with
    | head =>
      cases put.symm.trans found
      exact ⟨w, read, made⟩
    | tail _ member =>
      obtain ⟨u₀, before, converted⟩ := later.joined u below member own u' found
      have other : t.fieldName ≠ u.fieldName :=
        fun same => fresh (same ▸ Node.mem_joinedNames member own)
      rw [Fields.get?_insert, if_neg other] at before
      exact ⟨u₀, before, converted⟩

end Joined

end Converted

theorem converted_convertChildren {nodes : List Node} (apart : (Node.joinedNames nodes).Nodup)
    {o : Fields Value} {v : Value} (ran : convertChildren nodes (.object o) = .ok v) :
    ∃ o', v = .object o' ∧ Converted nodes o o' := by
  induction nodes generalizing o with
  | nil =>
    cases ran
    exact ⟨o, rfl, .refl o⟩
  | cons n nodes inductionHypothesis =>
    match n with
    | .table t children =>
      rw [Node.joinedNames_table] at apart
      rw [convertChildren] at ran
      split at ran
      · rename_i batch
        rw [if_pos batch] at apart
        obtain ⟨o', rfl, later⟩ := inductionHypothesis apart ran
        exact ⟨o', rfl, later.skip (by rintro _ _ ⟨⟩; exact batch)⟩
      · rename_i joined
        rw [if_neg joined, List.nodup_cons] at apart
        have single : t.isBatch = false := Bool.eq_false_iff.mpr joined
        cases read : Fields.get? o t.fieldName with
        | none =>
          simp only [read] at ran
          obtain ⟨o', rfl, later⟩ := inductionHypothesis apart.2 ran
          exact ⟨o', rfl, later.absent single apart.1 read⟩
        | some w =>
          simp only [read] at ran
          obtain ⟨w', here, ran⟩ := bind_eq_ok.mp ran
          obtain ⟨o', rfl, later⟩ := inductionHypothesis apart.2 ran
          exact ⟨o', rfl, later.insert single apart.1 read here⟩
    | .column _ | .composite _ | .noop _ _ =>
      obtain ⟨o', rfl, later⟩ := inductionHypothesis apart ran
      exact ⟨o', rfl, later.skip (by rintro _ _ ⟨⟩)⟩

/-- A filled object, as an item of a list. -/
def FilledItem (attached : Bool) (nodes : List Node) (v : Value) : Prop :=
  ∃ o, v = .object o ∧ Filled attached nodes o

section Items

variable {attached : Bool} {t : Table} {children nodes : List Node} {items : List Value}

theorem FilledItem.objects (all : ∀ v ∈ items, FilledItem attached nodes v) :
    ∀ o ∈ Value.itemObjects items, Filled attached nodes o := by
  intro o member
  obtain ⟨v, among, within⟩ := Value.mem_itemObjects.mp member
  obtain ⟨p, rfl, filled⟩ := all v among
  rw [List.mem_singleton.mp within]
  exact filled

theorem filled_ofItems {w : Value} (all : ∀ v ∈ items, FilledItem attached nodes v)
    (made : ofItems t items = .ok w) : ∀ o ∈ w.objects, Filled attached nodes o := by
  obtain ⟨p, edges, info, total, _, rfl, shown⟩ := ofItems_shown made
  rw [Value.objects, Value.nodeObjects_eq, shown]
  apply FilledItem.objects
  intro v member
  obtain ⟨w, among, rfl | rfl⟩ := Paging.mem_shown member
  · exact all v among
  · obtain ⟨o, rfl, filled⟩ := all w among
    exact ⟨_, rfl, filled.withoutTotal⟩

end Items

/-- An item is filled by its conversion if the values of the joined tables are. -/
theorem filledItem_convertChildren {t : Table} {children : List Node} {path : String}
    {shape : Shape} {rows : List Row} {items : List Value} (apart : t.JoinsApart children)
    (below : ∀ n ∈ children, ∀ {v w : Value}, Hydrates n v → convert n v = .ok w →
      ∀ o ∈ w.objects, Filled false n.children o)
    (shaped : Shape.ofNode path (.table t children) = .ok shape)
    (hydrated : Hydration.objects shape rows = .ok items) {v w : Value} (member : v ∈ items)
    (converted : convertChildren children v = .ok w) : FilledItem false children w := by
  obtain ⟨o, rfl, within⟩ := Hydration.hydratesIn_objects apart shaped hydrated v member
  obtain ⟨o', rfl, here⟩ := converted_convertChildren apart converted
  refine ⟨o', rfl, .intro (fun n among name named _ => ?_)
    (fun u nodes w among held read => ?_)⟩
  · rw [here.names]
    exact Hydration.present_objects shaped hydrated member among named
  · have single : u.isBatch = false := by simpa [Table.isHeld] using held
    obtain ⟨w₀, before, made⟩ := here.joined u nodes among single w read
    exact below _ among (within u nodes among single w₀ before) made

/-- Whatever was hydrated for a table is filled when it is converted. -/
theorem filled_convert (n : Node) : n.Everywhere Table.JoinsApart → ∀ {v w : Value},
    Hydrates n v → convert n v = .ok w → ∀ o ∈ w.objects, Filled false n.children o := by
  induction n using Node.below_induction with
  | leaf n leaf =>
    rintro _ v w ⟨path, shape, rows, items, shaped, _⟩
    cases n with
    | table t children => cases leaf
    | column _ | composite _ | noop _ _ => cases shaped
  | table t children inductionHypothesis =>
    rintro apart v w ⟨path, shape, rows, items, shaped, hydrated, value⟩ converted
    have item {v : Value} (member : v ∈ items) {w : Value}
        (converted : convertChildren children v = .ok w) : FilledItem false children w := by
      refine filledItem_convertChildren apart.1 ?_ shaped hydrated member converted
      intro n among
      exact inductionHypothesis n among (Node.everywhereIn_iff.mp apart.2 n among)
    rcases value with rfl | rfl
    · obtain ⟨results, each, converted⟩ := bind_eq_ok.mp converted
      have all (w : Value) (member : w ∈ results) : FilledItem false children w := by
        obtain ⟨v, among, made⟩ := (mem_of_mapM_ok each).mp member
        exact item among made
      split at converted
      · exact filled_ofItems all converted
      · cases converted
        exact FilledItem.objects all
    cases items with
    | nil =>
      rw [List.headD_nil, convert] at converted
      split at converted <;> cases converted <;> exact nofun
    | cons first items =>
      have head : first ∈ first :: items := List.mem_cons_self ..
      obtain ⟨o, rfl, _⟩ := Hydration.hydratesIn_objects apart.1 shaped hydrated first head
      obtain ⟨o', rfl, filled⟩ := item head converted
      intro p member
      rw [List.mem_singleton.mp member]
      exact filled

end Connection

end TreeQuery
