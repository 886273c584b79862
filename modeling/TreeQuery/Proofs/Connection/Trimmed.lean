import TreeQuery.Batch
import TreeQuery.Proofs.Connection.Keyset
import TreeQuery.Proofs.Hydration.Nested
import TreeQuery.Proofs.Plan.WellFormed
import TreeQuery.Proofs.Shape

/-!
Converted values are trimmed. Wherever a value holds a page, for its own table or for one that is
joined below, the page has no place for the row that only showed that there are more.
-/

namespace TreeQuery

open Fields (last?)
open Plan (Node Paging Table)

namespace Value

theorem mem_itemObjects {vs : List Value} {o : Fields Value} :
    o ∈ itemObjects vs ↔ ∃ v ∈ vs, o ∈ objects v := by
  induction vs with
  | nil => simp [itemObjects]
  | cons v vs inductionHypothesis => simp [itemObjects, inductionHypothesis]

theorem nodeObjects_eq (edges : List (String × Value)) :
    nodeObjects edges = itemObjects (edges.map Prod.snd) := by
  induction edges with
  | nil => rfl
  | cons e edges inductionHypothesis =>
    rw [nodeObjects, inductionHypothesis, List.map_cons, itemObjects]

end Value

/-- The items that a page shows, in the order of its edges. -/
def Plan.Paging.shown : Paging → List Value → List Value
  | .offset p, items =>
    let nodes := items.map Connection.withoutTotal
    match p.first with
    | some n => nodes.take n
    | none => nodes
  | .keyset p, items => Connection.shown p items

/-- If the value is a page, it has fewer nodes than the statement asks rows for. -/
def Plan.Table.Cut (t : Table) (w : Value) : Prop :=
  ∀ edges info total, w = .connection edges info total →
    ∀ p limit, t.paging = .ok p → p.limit = some limit → edges.length < limit

theorem Plan.Paging.length_shown {p : Paging} {limit : Nat} (limited : p.limit = some limit)
    (items : List Value) : (p.shown items).length < limit := by
  cases p with
  | offset p =>
    obtain ⟨n, count, rfl⟩ := Option.map_eq_some_iff.mp limited
    simp only [shown, count, List.length_take]
    omega
  | keyset p =>
    obtain ⟨n, count, rfl⟩ := Option.map_eq_some_iff.mp limited
    simp only [shown, Connection.shown, count]
    split <;> simp only [List.length_reverse, List.length_take] <;> omega

/-- What a page shows are items, with or without the count of all rows. -/
theorem Plan.Paging.mem_shown {p : Paging} {items : List Value} {v : Value}
    (member : v ∈ p.shown items) : ∃ w ∈ items, v = w ∨ v = Connection.withoutTotal w := by
  cases p with
  | offset p =>
    have kept : v ∈ items.map Connection.withoutTotal := by
      rw [shown] at member
      split at member
      · exact List.mem_of_mem_take member
      · exact member
    obtain ⟨w, among, rfl⟩ := List.mem_map.mp kept
    exact ⟨w, among, .inr rfl⟩
  | keyset p => exact ⟨v, Connection.shown_subset p items member, .inl rfl⟩

namespace Connection

theorem map_snd_numbered (offset : Nat) (nodes : List Value) :
    (numbered offset nodes).map Prod.snd = nodes := by
  induction nodes generalizing offset with
  | nil => rfl
  | cons v nodes inductionHypothesis =>
    rw [numbered, List.map_cons, inductionHypothesis]

theorem map_snd_edge (key : SortKey) (nodes : List Value) :
    (nodes.map (edge key)).map Prod.snd = nodes := by
  rw [List.map_map]
  exact List.map_id _

/-- The nodes of the edges are what the page shows. -/
theorem ofItems_shown {t : Table} {items : List Value} {w : Value}
    (made : ofItems t items = .ok w) : ∃ p edges info total, t.paging = .ok p ∧
      w = .connection edges info total ∧ edges.map Prod.snd = p.shown items := by
  obtain ⟨p, asked, made⟩ := bind_eq_ok.mp made
  have paging := mapError_eq_ok.mp asked
  cases p with
  | offset p =>
    cases made
    exact ⟨_, _, _, _, paging, rfl, map_snd_numbered _ _⟩
  | keyset p =>
    cases made
    exact ⟨_, _, _, _, paging, rfl, map_snd_edge p.key (shown p items)⟩

mutual

/-- The value is cut to its page, and so are the values of joined tables in its objects. -/
def Trimmed : Node → Value → Prop
  | .table t children, w => t.Cut w ∧ ∀ o ∈ w.objects, TrimmedIn children o
  | _, _ => True

/-- The tables that are joined into an object have trimmed values there. -/
def TrimmedIn : List Node → Fields Value → Prop
  | [], _ => True
  | .table t children :: r, o =>
    (t.isBatch = false → ∀ w, Fields.get? o t.fieldName = some w → Trimmed (.table t children) w) ∧
      TrimmedIn r o
  | _ :: r, o => TrimmedIn r o

end

theorem trimmedIn_iff {nodes : List Node} {o : Fields Value} :
    TrimmedIn nodes o ↔ ∀ t children, .table t children ∈ nodes → t.isBatch = false →
      ∀ w, Fields.get? o t.fieldName = some w → Trimmed (.table t children) w := by
  induction nodes with
  | nil => simp [TrimmedIn]
  | cons n nodes inductionHypothesis =>
    cases n with
    | table t children =>
      rw [TrimmedIn, inductionHypothesis]
      constructor
      · rintro ⟨here, later⟩ u below member
        cases member with
        | head => exact here
        | tail _ member => exact later u below member
      · intro all
        exact ⟨all t children (List.mem_cons_self ..),
          fun u below member => all u below (List.mem_cons_of_mem _ member)⟩
    | column _ | composite _ | noop _ _ =>
      apply inductionHypothesis.trans
      simp

/-- An object whose joined tables have trimmed values. -/
def TrimmedItem (nodes : List Node) (v : Value) : Prop := ∃ o, v = .object o ∧ TrimmedIn nodes o

theorem TrimmedItem.withoutTotal {nodes : List Node} {v : Value} (h : TrimmedItem nodes v) :
    TrimmedItem nodes (withoutTotal v) := by
  obtain ⟨o, rfl, trimmed⟩ := h
  refine ⟨_, rfl, trimmedIn_iff.mpr (fun t children member single w read => ?_)⟩
  rw [Fields.get?_erase] at read
  split at read
  · cases read
  · exact trimmedIn_iff.mp trimmed t children member single w read

theorem TrimmedItem.objects {nodes : List Node} {items : List Value}
    (all : ∀ v ∈ items, TrimmedItem nodes v) :
    ∀ o ∈ Value.itemObjects items, TrimmedIn nodes o := by
  intro o member
  obtain ⟨v, among, within⟩ := Value.mem_itemObjects.mp member
  obtain ⟨p, rfl, trimmed⟩ := all v among
  rw [List.mem_singleton.mp within]
  exact trimmed

section Table

variable {t : Table} {children : List Node}

theorem trimmed_list {items : List Value} (all : ∀ v ∈ items, TrimmedItem children v) :
    Trimmed (.table t children) (.list items) :=
  ⟨nofun, TrimmedItem.objects all⟩

theorem trimmed_ofItems {items : List Value} {w : Value}
    (all : ∀ v ∈ items, TrimmedItem children v) (made : ofItems t items = .ok w) :
    Trimmed (.table t children) w := by
  obtain ⟨p, edges, info, total, paging, rfl, shown⟩ := ofItems_shown made
  constructor
  · rintro _ _ _ ⟨⟩ q limit asked limited
    cases paging.symm.trans asked
    rw [← List.length_map (f := Prod.snd), shown]
    exact Paging.length_shown limited items
  · rw [Value.objects, Value.nodeObjects_eq, shown]
    apply TrimmedItem.objects
    intro v member
    obtain ⟨w, among, rfl | rfl⟩ := Paging.mem_shown member
    · exact all v among
    · exact (all w among).withoutTotal

theorem trimmed_emptyConnection : Trimmed (.table t children) .emptyConnection := by
  constructor
  · rintro _ _ _ ⟨⟩ p limit _ limited
    exact Nat.lt_of_le_of_lt (Nat.zero_le _) (Paging.length_shown limited [])
  · exact nofun

theorem trimmed_null : Trimmed (.table t children) .null := ⟨nofun, nofun⟩

theorem trimmed_object {v : Value} (item : TrimmedItem children v) :
    Trimmed (.table t children) v := by
  obtain ⟨o, rfl, trimmed⟩ := item
  refine ⟨nofun, fun p member => ?_⟩
  rw [List.mem_singleton.mp member]
  exact trimmed

end Table

/-- What hydration makes of rows for a table: all objects in a list, or the first one alone. -/
def Hydrates (n : Node) (v : Value) : Prop :=
  ∃ path shape rows items, Shape.ofNode path n = .ok shape ∧
    Hydration.objects shape rows = .ok items ∧ (v = .list items ∨ v = items.headD .null)

/-- All that was hydrated, or only the first of it. -/
theorem Hydrates.all_or_first {n : Node} {path : String} {shape : Shape} {rows : List Row}
    {items : List Value} (shaped : Shape.ofNode path n = .ok shape)
    (hydrated : Hydration.objects shape rows = .ok items) (all : Bool) :
    Hydrates n (if all then .list items else items.headD .null) := by
  refine ⟨path, shape, rows, items, shaped, hydrated, ?_⟩
  cases all with
  | true => exact .inl rfl
  | false => exact .inr rfl

/-- An object as it was hydrated, where the tables that are joined into it are concerned. -/
def HydratesIn (nodes : List Node) (o : Fields Value) : Prop :=
  ∀ t children, .table t children ∈ nodes → t.isBatch = false →
    ∀ w, Fields.get? o t.fieldName = some w → Hydrates (.table t children) w

end Connection

namespace Hydration

theorem names_objectFields {fields : List (String × ShapeField)} {rows : List Row}
    {pairs : Fields Value} (read : objectFields fields rows = .ok pairs) :
    Fields.names pairs = Fields.names fields := by
  induction fields generalizing pairs with
  | nil =>
    cases read
    rfl
  | cons entry fields inductionHypothesis =>
    obtain ⟨v, value, read⟩ := bind_eq_ok.mp read
    obtain ⟨rest, later, read⟩ := bind_eq_ok.mp read
    cases read
    rw [Fields.names_cons, Fields.names_cons, inductionHypothesis later]

/-- The last field of a name is read into the last entry of that name. -/
theorem last?_objectFields {fields : List (String × ShapeField)} {rows : List Row}
    {pairs : Fields Value} (read : objectFields fields rows = .ok pairs) {name : String}
    {f : ShapeField} (found : last? fields name = some f) :
    ∃ v, fieldValue f rows = .ok v ∧ last? pairs name = some v := by
  induction fields generalizing pairs with
  | nil => cases found
  | cons entry fields inductionHypothesis =>
    obtain ⟨v, value, read⟩ := bind_eq_ok.mp read
    obtain ⟨rest, later, read⟩ := bind_eq_ok.mp read
    cases read
    rw [last?, Option.or_eq_some_iff] at found
    rcases found with found | ⟨absent, here⟩
    · obtain ⟨w, read, last⟩ := inductionHypothesis later found
      exact ⟨w, read, by rw [last?, last, Option.some_or]⟩
    · split at here
      · rename_i named
        cases here
        have missing : last? rest name = none := by
          rw [Fields.last?_eq_none, names_objectFields later]
          exact Fields.last?_eq_none.mp absent
        exact ⟨v, value, by rw [last?, missing, Option.none_or, if_pos named]⟩
      · cases here

open Connection (Hydrates HydratesIn)

/-- Each object has what hydration makes of the tables that are joined into it. -/
theorem hydratesIn_objects {path : String} {t : Table} {children : List Node} {shape : Shape}
    {rows : List Row} {items : List Value} (apart : t.JoinsApart children)
    (shaped : Shape.ofNode path (.table t children) = .ok shape)
    (hydrated : objects shape rows = .ok items) :
    ∀ v ∈ items, ∃ o, v = .object o ∧ HydratesIn children o := by
  obtain ⟨fields, below, _, rfl⟩ := Shape.ofNode_table_ok.mp shaped
  intro v member
  obtain ⟨own, _, rfl, _, _, pairs, _, _, read, rfl⟩ := (mem_objects hydrated).mp member
  refine ⟨_, rfl, fun u inside among single w found => ?_⟩
  obtain ⟨s, nested, last⟩ := (Shape.last?_ofChildren below apart).2 u inside among single
  obtain ⟨w', value, entry⟩ := last?_objectFields read last
  rw [Fields.get?_ofPairs, entry] at found
  cases found
  obtain ⟨items, inner, value⟩ := bind_eq_ok.mp value
  cases value
  exact Hydrates.all_or_first nested inner _

end Hydration

namespace Connection

theorem HydratesIn.insert {nodes : List Node} {o : Fields Value} {name : String}
    (h : HydratesIn nodes o) (fresh : name ∉ Node.joinedNames nodes) (w : Value) :
    HydratesIn nodes (Fields.insert o name w) := by
  intro t children member single u read
  have other : name ≠ t.fieldName :=
    fun same => fresh (same ▸ Node.mem_joinedNames member single)
  rw [Fields.get?_insert, if_neg other] at read
  exact h t children member single u read

mutual

/-- Whatever was hydrated for a table is trimmed when it is converted. -/
theorem trimmed_convert : (n : Node) → n.Everywhere Table.JoinsApart → {v w : Value} →
    Hydrates n v → convert n v = .ok w → Trimmed n w
  | .table t children, apart, v, w, ⟨path, shape, rows, items, shaped, hydrated, value⟩,
      converted => by
    have objects := Hydration.hydratesIn_objects apart.1 shaped hydrated
    have item (v : Value) (member : v ∈ items) {w : Value}
        (converted : convertChildren children v = .ok w) : TrimmedItem children w := by
      obtain ⟨o, rfl, within⟩ := objects v member
      exact (trimmed_convertChildren children apart.1 apart.2 within converted).1
    rcases value with rfl | rfl
    · obtain ⟨results, each, converted⟩ := bind_eq_ok.mp converted
      have all (w : Value) (member : w ∈ results) : TrimmedItem children w := by
        obtain ⟨v, among, made⟩ := (mem_of_mapM_ok each).mp member
        exact item v among made
      split at converted
      · exact trimmed_ofItems all converted
      · cases converted
        exact trimmed_list all
    cases items with
    | nil =>
      rw [List.headD_nil, convert] at converted
      split at converted <;> cases converted
      · exact trimmed_emptyConnection
      · exact trimmed_null
    | cons first items =>
      obtain ⟨o, rfl, _⟩ := objects first (List.mem_cons_self ..)
      exact trimmed_object (item _ (List.mem_cons_self ..) converted)
  | .column _, _, _, _, _, _ | .composite _, _, _, _, _, _ | .noop _ _, _, _, _, _, _ => trivial

theorem trimmed_convertChildren : (nodes : List Node) → (Node.joinedNames nodes).Nodup →
    Node.EverywhereIn Table.JoinsApart nodes → {o : Fields Value} → {v : Value} →
    HydratesIn nodes o → convertChildren nodes (.object o) = .ok v →
    TrimmedItem nodes v ∧ ∀ name, name ∉ Node.joinedNames nodes →
      v.field? name = Fields.get? o name
  | [], _, _, _, _, _, converted => by
    cases converted
    exact ⟨⟨_, rfl, trivial⟩, fun _ _ => rfl⟩
  | .table t children :: r, names, apart, o, v, hydrated, converted => by
    have others : HydratesIn r o :=
      fun u below member => hydrated u below (List.mem_cons_of_mem _ member)
    rw [Node.joinedNames_table] at names ⊢
    rw [convertChildren] at converted
    split at converted
    · rename_i batch
      rw [if_pos batch] at names ⊢
      obtain ⟨⟨o', rfl, trimmed⟩, kept⟩ :=
        trimmed_convertChildren r names apart.2 others converted
      refine ⟨⟨o', rfl, fun single => ?_, trimmed⟩, kept⟩
      simp [batch] at single
    · rename_i single
      rw [if_neg single, List.nodup_cons] at names
      rw [if_neg single]
      cases read : Fields.get? o t.fieldName with
      | none =>
        simp only [read] at converted
        obtain ⟨⟨o', rfl, trimmed⟩, kept⟩ :=
          trimmed_convertChildren r names.2 apart.2 others converted
        refine ⟨⟨o', rfl, fun _ w found => ?_, trimmed⟩, fun name other => ?_⟩
        · have absent := kept t.fieldName names.1
          rw [read] at absent
          cases absent.symm.trans found
        · exact kept name (fun member => other (List.mem_cons_of_mem _ member))
      | some w =>
        simp only [read] at converted
        obtain ⟨w', here, converted⟩ := bind_eq_ok.mp converted
        have own := hydrated t children (List.mem_cons_self ..) (by simpa using single) w read
        obtain ⟨⟨o', rfl, trimmed⟩, kept⟩ :=
          trimmed_convertChildren r names.2 apart.2 (others.insert names.1 w') converted
        refine ⟨⟨o', rfl, fun _ u found => ?_, trimmed⟩, fun name other => ?_⟩
        · -- The tables converted later have other names, so what was put here is still there.
          have put := kept t.fieldName names.1
          rw [Fields.get?_insert, if_pos rfl] at put
          cases put.symm.trans found
          exact trimmed_convert (.table t children) apart.1 own here
        · obtain ⟨apartFrom, later⟩ := not_or.mp (mt List.mem_cons.mpr other)
          rw [kept name later, Fields.get?_insert, if_neg (Ne.symm apartFrom)]
  | .column _ :: r, names, apart, o, v, hydrated, converted
  | .composite _ :: r, names, apart, o, v, hydrated, converted
  | .noop _ _ :: r, names, apart, o, v, hydrated, converted =>
    trimmed_convertChildren r names apart.2
      (fun u below member => hydrated u below (List.mem_cons_of_mem _ member)) converted

end

/-- Of a table that is not of many at most one object is left. -/
theorem objects_convert_head {t : Table} {children : List Node} {path : String} {shape : Shape}
    {rows : List Row} {items : List Value} {w : Value}
    (apart : (Node.table t children).Everywhere Table.JoinsApart)
    (shaped : Shape.ofNode path (.table t children) = .ok shape)
    (hydrated : Hydration.objects shape rows = .ok items) (unpaged : t.paginate = false)
    (converted : convert (.table t children) (items.headD .null) = .ok w) :
    w.objects.length ≤ 1 := by
  cases items with
  | nil =>
    rw [List.headD_nil, convert, unpaged] at converted
    cases converted
    exact Nat.zero_le 1
  | cons first items =>
    have objects := Hydration.hydratesIn_objects apart.1 shaped hydrated
    obtain ⟨o, rfl, within⟩ := objects first (List.mem_cons_self ..)
    obtain ⟨o', rfl, _⟩ := (trimmed_convertChildren children apart.1 apart.2 within converted).1
    exact Nat.le_refl 1

end Connection

end TreeQuery
