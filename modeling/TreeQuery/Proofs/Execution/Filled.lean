import TreeQuery.Proofs.Batch.Siblings
import TreeQuery.Proofs.Connection.Filled
import TreeQuery.Proofs.Execution.Statements

/-!
A run fills the objects of its result. Objects are taken out of lists and pages, batches are
attached to them, the joined tables below are gone into, and all are put back where they stood, so
that none is left without an entry.
-/

namespace TreeQuery

open Plan (Node Table totalColumn)

theorem append_of_length_eq_add {α : Type} {l : List α} {m n : Nat} (h : l.length = m + n) :
    ∃ a b, l = a ++ b ∧ a.length = m ∧ b.length = n :=
  ⟨l.take m, l.drop m, (List.take_append_drop m l).symm, by simp [h], by simp [h]⟩

namespace Value

mutual

/-- As many objects as a value has can take the place of its own. -/
theorem refill_objects : (v : Value) → (rest : List (Fields Value)) →
    {os : List (Fields Value)} → os.length = (objects v).length →
    objects (refill v (os ++ rest)).1 = os ∧ (refill v (os ++ rest)).2 = rest
  | .object fields, rest, os, enough => by
    obtain ⟨o, rfl⟩ := List.length_eq_one_iff.mp enough
    exact ⟨rfl, rfl⟩
  | .list items, rest, os, enough => refillItems_objects items rest enough
  | .connection edges info total, rest, os, enough => refillNodes_objects edges rest enough
  | .null, rest, os, enough | .bool _, rest, os, enough | .int _, rest, os, enough
  | .double _, rest, os, enough | .text _, rest, os, enough | .json _, rest, os, enough => by
    rw [List.eq_nil_of_length_eq_zero enough]
    exact ⟨rfl, rfl⟩

theorem refillItems_objects : (vs : List Value) → (rest : List (Fields Value)) →
    {os : List (Fields Value)} → os.length = (itemObjects vs).length →
    itemObjects (refillItems vs (os ++ rest)).1 = os ∧ (refillItems vs (os ++ rest)).2 = rest
  | [], rest, os, enough => by
    rw [List.eq_nil_of_length_eq_zero enough]
    exact ⟨rfl, rfl⟩
  | v :: vs, rest, os, enough => by
    rw [itemObjects, List.length_append] at enough
    obtain ⟨here, later, rfl, first, others⟩ := append_of_length_eq_add enough
    obtain ⟨own, left⟩ := refill_objects v (later ++ rest) first
    obtain ⟨inside, after⟩ := refillItems_objects vs rest others
    simp only [List.append_assoc, refillItems, itemObjects, own, left, inside, after, and_self]

theorem refillNodes_objects : (es : List (String × Value)) → (rest : List (Fields Value)) →
    {os : List (Fields Value)} → os.length = (nodeObjects es).length →
    nodeObjects (refillNodes es (os ++ rest)).1 = os ∧ (refillNodes es (os ++ rest)).2 = rest
  | [], rest, os, enough => by
    rw [List.eq_nil_of_length_eq_zero enough]
    exact ⟨rfl, rfl⟩
  | (c, v) :: es, rest, os, enough => by
    rw [nodeObjects, List.length_append] at enough
    obtain ⟨here, later, rfl, first, others⟩ := append_of_length_eq_add enough
    obtain ⟨own, left⟩ := refill_objects v (later ++ rest) first
    obtain ⟨inside, after⟩ := refillNodes_objects es rest others
    simp only [List.append_assoc, refillNodes, nodeObjects, own, left, inside, after, and_self]

end

end Value

namespace Batch

variable {t : Table} {groups : Option Groups} {o p : Fields Value}

theorem mem_of_get? {gs : Groups} {k : Key} {w : Value} (found : gs.get? k = some w) :
    w ∈ gs.map Prod.snd := by
  induction gs with
  | nil => cases found
  | cons g gs inductionHypothesis =>
    rw [Groups.get?] at found
    split at found
    · cases found
      exact List.mem_cons_self ..
    · exact List.mem_cons_of_mem _ (inductionHypothesis found)

theorem mem_objects_list? {w v : Value} {items : List Value} (list : w.list? = some items)
    (member : v ∈ items) (inside : p ∈ v.objects) : p ∈ w.objects := by
  cases w with
  | list own =>
    cases list
    exact Value.mem_itemObjects.mpr ⟨v, member, inside⟩
  | _ => cases list

/-- All objects that are attached are objects of groups. -/
theorem mem_objects_attach (member : p ∈ (attach t groups o).objects) :
    ∃ gs w, groups = some gs ∧ w ∈ gs.map Prod.snd ∧ p ∈ w.objects := by
  cases groups with
  | none =>
    rw [attach_none, nothing] at member
    split at member <;> cases member
  | some gs =>
    have found : ∀ w ∈ (parentKeys t o).filterMap gs.get?, w ∈ gs.map Prod.snd := by
      intro w among
      obtain ⟨k, _, read⟩ := List.mem_filterMap.mp among
      exact mem_of_get? read
    suffices inside : ∃ w ∈ (parentKeys t o).filterMap gs.get?, p ∈ w.objects by
      obtain ⟨w, among, within⟩ := inside
      exact ⟨gs, w, rfl, found w among, within⟩
    simp only [attach] at member
    generalize (parentKeys t o).filterMap gs.get? = values at member ⊢
    split at member
    · cases first : (values.head?.bind Value.list?).bind List.head? with
      | none =>
        rw [first] at member
        cases member
      | some v =>
        rw [first] at member
        obtain ⟨items, list, head⟩ := Option.bind_eq_some_iff.mp first
        obtain ⟨w, own, list⟩ := Option.bind_eq_some_iff.mp list
        exact ⟨w, List.mem_of_head? own,
          mem_objects_list? list (List.mem_of_head? head) member⟩
    · split at member
      · split at member <;> cases member
      · exact ⟨_, List.mem_singleton_self _, member⟩
      · split at member
        · exact ⟨_, List.mem_cons_self .., member⟩
        · obtain ⟨v, among, inside⟩ := Value.mem_itemObjects.mp member
          obtain ⟨w, own, listed⟩ := List.mem_flatMap.mp among
          cases list : w.list? with
          | none =>
            rw [list] at listed
            cases listed
          | some items =>
            rw [list] at listed
            exact ⟨w, own, mem_objects_list? list listed inside⟩

end Batch

namespace Filled

variable {nodes : List Node} {o : Fields Value}

/-- Where there are no batches, none has to be attached. -/
theorem attached (h : Filled false nodes o) (unbatched : Node.anyBatch nodes = false) :
    Filled true nodes o := by
  induction h with
  | @intro nodes o present inside inductionHypothesis =>
    have single {t : Table} {children : List Node} (member : .table t children ∈ nodes) :
        t.isBatch = false ∧ Node.anyBatch children = false :=
      Execution.anyBatch_eq_false.mp unbatched (.table t children) member
    refine .intro (fun n member name named other => ?_)
      (fun t children w member _ read p among => ?_)
    · refine present n member name ?_ other
      cases n with
      | table t children => simpa [Node.entryName?, Table.isHeld, (single member).1] using named
      | column _ | composite _ | noop _ _ => exact named
    · have held : t.isHeld false := by simp [Table.isHeld, (single member).1]
      exact inductionHypothesis t children w member held read p among (single member).2

end Filled

namespace Execution

open Value (itemObjects)

variable {σ : Type} {fl : Sql.Flavor} {d : Driver σ} {s s' : Session σ}
variable {t : Table} {children nodes : List Node} {objects out : List (Fields Value)}

/-- As many objects as before, each of them made of one that was there. -/
structure Remade (R : Fields Value → Fields Value → Prop) (objects out : List (Fields Value)) :
    Prop where
  length : out.length = objects.length
  each : ∀ o' ∈ out, ∃ o ∈ objects, R o o'

theorem Remade.cons {R : Fields Value → Fields Value → Prop} {o o' : Fields Value} (here : R o o')
    (later : Remade R objects out) : Remade R (o :: objects) (o' :: out) where
  length := by rw [List.length_cons, List.length_cons, later.length]
  each p' member := by
    cases member with
    | head => exact ⟨o, List.mem_cons_self .., here⟩
    | tail _ member =>
      obtain ⟨p, among, made⟩ := later.each p' member
      exact ⟨p, List.mem_cons_of_mem _ among, made⟩

theorem Remade.mono {R R' : Fields Value → Fields Value → Prop} (h : Remade R objects out)
    (more : ∀ o o', R o o' → R' o o') : Remade R' objects out where
  length := h.length
  each o' member := by
    obtain ⟨o, among, made⟩ := h.each o' member
    exact ⟨o, among, more o o' made⟩

section Put

variable {name : String}

theorem putField_absent {o : Fields Value} (absent : Fields.get? o name = none)
    (values : List Value) :
    putField name (o :: objects) values = o :: putField name objects values := by
  cases values <;> simp [putField, Fields.contains, absent]

theorem putField_present {o : Fields Value} {w : Value} (read : Fields.get? o name = some w)
    (v : Value) (values : List Value) : putField name (o :: objects) (v :: values) =
      Fields.insert o name v :: putField name objects values := by
  simp [putField, Fields.contains, read]

/-- An object whose value of one name, if it had any, has been replaced. -/
structure Put (name : String) (values : List Value) (o o' : Fields Value) : Prop where
  names : Fields.names o' = Fields.names o
  others : ∀ other ≠ name, Fields.get? o' other = Fields.get? o other
  own : ∀ w, Fields.get? o' name = some w → w ∈ values

theorem Put.mono {values later : List Value} {o o' : Fields Value} (h : Put name later o o')
    (more : later ⊆ values) : Put name values o o' :=
  ⟨h.names, h.others, fun w read => more (h.own w read)⟩

theorem put_absent {o : Fields Value} (absent : Fields.get? o name = none) (values : List Value) :
    Put name values o o :=
  ⟨rfl, fun _ _ => rfl, fun w read => by cases absent.symm.trans read⟩

theorem put_insert {o : Fields Value} {w : Value} (read : Fields.get? o name = some w) (v : Value)
    (values : List Value) : Put name (v :: values) o (Fields.insert o name v) where
  names := by
    have present : name ∈ Fields.names o := by
      rw [← Fields.isSome_get?, read, Option.isSome_some]
    rw [Fields.names_insert, if_pos present]
  others other apart := by rw [Fields.get?_insert, if_neg (Ne.symm apart)]
  own w' found := by
    rw [Fields.get?_insert, if_pos rfl] at found
    cases found
    exact List.mem_cons_self ..

/-- If there are enough values, no object keeps the one that it had. -/
theorem putField_remade {values : List Value}
    (enough : values.length = (heldIn name objects).length) :
    Remade (Put name values) objects (putField name objects values) := by
  induction objects generalizing values with
  | nil => exact ⟨rfl, nofun⟩
  | cons o objects inductionHypothesis =>
    rw [heldIn_cons, List.length_append] at enough
    cases read : Fields.get? o name with
    | none =>
      rw [read, Option.toList_none, List.length_nil, Nat.zero_add] at enough
      rw [putField_absent read]
      exact (inductionHypothesis enough).cons (put_absent read values)
    | some w =>
      rw [read, Option.toList_some, List.length_singleton] at enough
      cases values with
      | nil =>
        rw [List.length_nil] at enough
        omega
      | cons v values =>
        have rest : values.length = (heldIn name objects).length := by
          rw [List.length_cons] at enough
          omega
        rw [putField_present read]
        exact ((inductionHypothesis rest).mono
          (fun _ _ put => put.mono (List.subset_cons_self ..))).cons (put_insert read v values)

end Put

/-- Values are filled if what is put into them is filled and there is enough of it. -/
theorem onValues_filled {f : List (Fields Value) → Task σ (List (Fields Value))}
    {values values' : List Value}
    (fills : ∀ {out s'}, f (itemObjects values) s = (.ok out, s') →
      out.length = (itemObjects values).length ∧ ∀ o ∈ out, Filled true children o)
    (ran : onValues f values s = (.ok values', s')) :
    values'.length = values.length ∧ ∀ w ∈ values', ∀ p ∈ w.objects, Filled true children p := by
  obtain ⟨out, s₁, changed, ran⟩ := Run.bind_ok.mp ran
  obtain ⟨rfl, rfl⟩ := Run.pure_ok.mp ran
  obtain ⟨length, filled⟩ := fills changed
  have objects := (Value.refillItems_objects values [] length).1
  rw [List.append_nil] at objects
  refine ⟨Value.length_refillItems values out, fun w member p inside => filled p ?_⟩
  rw [← objects]
  exact Value.mem_itemObjects.mpr ⟨w, member, inside⟩

theorem onGroups_filled {f : List (Fields Value) → Task σ (List (Fields Value))}
    {groups groups' : Groups}
    (fills : ∀ {out s'}, f (itemObjects (groups.map Prod.snd)) s = (.ok out, s') →
      out.length = (itemObjects (groups.map Prod.snd)).length ∧ ∀ o ∈ out, Filled true children o)
    (ran : onGroups f groups s = (.ok groups', s')) :
    ∀ w ∈ groups'.map Prod.snd, ∀ p ∈ w.objects, Filled true children p := by
  obtain ⟨values, s₁, changed, ran⟩ := Run.bind_ok.mp ran
  obtain ⟨rfl, rfl⟩ := Run.pure_ok.mp ran
  obtain ⟨length, filled⟩ := onValues_filled fills changed
  rw [List.length_map] at length
  rw [List.map_snd_zip (by rw [length, List.length_map])]
  exact filled

section Attach

/-- The groups that were fetched for a batch are filled. -/
def FilledGroups (children : List Node) (groups : Option Groups) : Prop :=
  ∀ gs, groups = some gs → ∀ w ∈ gs.map Prod.snd, ∀ p ∈ w.objects, Filled true children p

/-- An object that has been given its batches, and keeps all other entries. -/
structure Supplied (nodes : List Node) (o o' : Fields Value) : Prop where
  names : Fields.names o ⊆ Fields.names o'
  others : ∀ name, name ∉ (Node.batches nodes).map Table.fieldName →
    Fields.get? o' name = Fields.get? o name
  own : ∀ t children, .table t children ∈ nodes → t.isBatch →
    ∃ w, Fields.get? o' t.fieldName = some w ∧ ∀ p ∈ w.objects, Filled true children p

theorem supplied_attachOne {fetched : Fetched}
    (tables : fetched.map Prod.fst = Node.batches nodes)
    (apart : ((Node.batches nodes).map Table.fieldName).Nodup)
    (filled : ∀ t children, .table t children ∈ nodes → t.isBatch →
      ∃ groups, (t, groups) ∈ fetched ∧ FilledGroups children groups) (o : Fields Value) :
    Supplied nodes o (Batch.attachOne fetched o) := by
  have names : Batch.fieldNames fetched = (Node.batches nodes).map Table.fieldName :=
    Batch.fieldNames_of_tables tables
  rw [← names] at apart
  have attached {t : Table} {groups : Option Groups} (member : (t, groups) ∈ fetched) :
      ∃ p, Fields.get? (Batch.attachOne fetched o) t.fieldName =
        some (Batch.attach t groups p) := by
    obtain ⟨before, after, rfl⟩ := List.append_of_mem member
    exact ⟨_, Batch.get?_attachOne_split (Batch.nodup_fieldNames_split apart).2⟩
  refine ⟨fun name present => ?_, fun name other => ?_, fun t children member batch => ?_⟩
  · rw [← Fields.isSome_get?] at present ⊢
    by_cases own : name ∈ Batch.fieldNames fetched
    · obtain ⟨f, member, rfl⟩ := List.mem_map.mp own
      obtain ⟨p, read⟩ := attached member
      rw [read, Option.isSome_some]
    · rw [Batch.get?_attachOne_of_notMem own]
      exact present
  · exact Batch.get?_attachOne_of_notMem (names ▸ other)
  · obtain ⟨groups, member, filled⟩ := filled t children member batch
    obtain ⟨p, read⟩ := attached member
    refine ⟨_, read, fun q inside => ?_⟩
    obtain ⟨gs, w, same, among, within⟩ := Batch.mem_objects_attach inside
    exact filled gs same w among q within

end Attach

/-- An object whose joined tables are filled and that is otherwise as it was. -/
structure Entered (nodes : List Node) (o o' : Fields Value) : Prop where
  names : Fields.names o' = Fields.names o
  others : ∀ name ∉ Node.joinedNames nodes, Fields.get? o' name = Fields.get? o name
  filled : ∀ t children, .table t children ∈ nodes → t.isBatch = false →
    ∀ w, Fields.get? o' t.fieldName = some w → ∀ p ∈ w.objects, Filled true children p

/-- Once the batches are attached and the joined tables are gone into, nothing is left to fill. -/
theorem Supplied.filled {o o₁ o' : Fields Value} (h : Supplied children o o₁)
    (entered : Entered children o₁ o') (apart : t.TablesApart children)
    (before : Filled false children o) : Filled true children o' := by
  refine .intro (fun n member name named other => ?_) (fun u nodes w member _ read => ?_)
  · rw [entered.names]
    by_cases batch : n.isBatch
    · obtain ⟨u, nodes, rfl⟩ : ∃ u nodes, n = .table u nodes := by
        cases n with
        | table u nodes => exact ⟨u, nodes, rfl⟩
        | column _ | composite _ | noop _ _ => cases batch
      cases named
      obtain ⟨w, read, _⟩ := h.own u nodes member batch
      rw [← Fields.isSome_get?, read, Option.isSome_some]
    · refine h.names (before.present member ?_ other)
      cases n with
      | table u nodes =>
        have single : u.isBatch = false := by simpa [Node.isBatch] using batch
        simpa [Node.entryName?, Table.isHeld, single] using named
      | column _ | composite _ | noop _ _ => exact named
  · cases batch : u.isBatch with
    | false => exact entered.filled u nodes member batch w read
    | true =>
      have unjoined := apart.batch_apart (Node.mem_tables member) batch
      obtain ⟨v, own, filled⟩ := h.own u nodes member batch
      rw [entered.others _ unjoined, own] at read
      cases read
      exact filled

section Groups

variable {items : List Value}

theorem filled_groupValue {w : Value} (all : ∀ v ∈ items, Connection.FilledItem false children v)
    (made : groupValue t items = .ok w) : ∀ p ∈ w.objects, Filled false children p := by
  rw [groupValue] at made
  split at made
  · exact Connection.filled_ofItems all made
  · cases made
    exact Connection.FilledItem.objects all

theorem mem_groupValues {grouping : Grouping Key Value} {groups : Groups}
    (made : groupValues t grouping = .ok groups) {w : Value} (member : w ∈ groups.map Prod.snd) :
    ∃ g ∈ grouping, groupValue t g.2 = .ok w := by
  induction grouping generalizing groups with
  | nil =>
    cases made
    cases member
  | cons g grouping inductionHypothesis =>
    obtain ⟨v, value, made⟩ := bind_eq_ok.mp made
    obtain ⟨rest, others, made⟩ := bind_eq_ok.mp made
    cases made
    cases member with
    | head => exact ⟨g, List.mem_cons_self .., value⟩
    | tail _ member =>
      obtain ⟨h, among, value⟩ := inductionHypothesis others member
      exact ⟨h, List.mem_cons_of_mem _ among, value⟩

theorem fetchGroups_filled {scope : List Key} {groups : Groups}
    (apart : (Node.table t children).Everywhere Table.JoinsApart) (batch : t.isBatch)
    (fetched : fetchGroups fl d t children scope s = (.ok groups, s')) {w : Value}
    (member : w ∈ groups.map Prod.snd) : ∀ p ∈ w.objects, Filled false children p := by
  obtain ⟨keys, matched⟩ := Option.isSome_iff_exists.mp (t.isBatch_eq ▸ batch)
  obtain ⟨hydrated, items, read, converted, grouped⟩ := fetchGroups_ok matched fetched
  obtain ⟨shape, rows, shaped, objects⟩ := fetch_hydrated read
  obtain ⟨g, group, value⟩ := mem_groupValues grouped member
  refine filled_groupValue (fun v among => ?_) value
  obtain ⟨v₀, before, made⟩ := (mem_of_mapM_ok converted).mp (mem_ofItems group among)
  refine Connection.filledItem_convertChildren apart.1 ?_ shaped objects before made
  intro n below
  exact Connection.filled_convert n (Node.everywhereIn_iff.mp apart.2 n below)

end Groups

/-- The joined tables among some nodes have filled values in an object. -/
def JoinsFilled (nodes : List Node) (o : Fields Value) : Prop :=
  ∀ t children, .table t children ∈ nodes → t.isBatch = false →
    ∀ w, Fields.get? o t.fieldName = some w → ∀ p ∈ w.objects, Filled false children p

namespace JoinsFilled

variable {n : Node} {o : Fields Value}

theorem later (h : JoinsFilled (n :: nodes) o) : JoinsFilled nodes o :=
  fun t children member => h t children (List.mem_cons_of_mem _ member)

theorem heldIn (all : ∀ o ∈ objects, JoinsFilled (.table t children :: nodes) o)
    (single : t.isBatch = false) :
    ∀ p ∈ itemObjects (heldIn t.fieldName objects), Filled false children p := by
  intro p member
  obtain ⟨w, held, inside⟩ := Value.mem_itemObjects.mp member
  obtain ⟨o, among, read⟩ := List.mem_filterMap.mp held
  exact all o among t children (List.mem_cons_self ..) single w read p inside

end JoinsFilled

namespace Entered

variable {n : Node} {o o₁ o' : Fields Value}

theorem refl (o : Fields Value) : Entered [] o o :=
  ⟨rfl, fun _ _ => rfl, fun _ _ member => (List.not_mem_nil member).elim⟩

/-- A table without batches below is filled as it is. -/
theorem skip (h : Entered nodes o o') (apart : (Node.joinedNames (n :: nodes)).Nodup)
    (filled : JoinsFilled (n :: nodes) o)
    (unneeded : ∀ t children, n = .table t children → t.isBatch = false →
      Node.anyBatch children = false) : Entered (n :: nodes) o o' := by
  have fewer : (Node.joinedNames nodes).Sublist (Node.joinedNames (n :: nodes)) :=
    (List.sublist_cons_self n nodes).filterMap _
  refine ⟨h.names, fun name other => h.others name (fun later => other (fewer.subset later)),
    fun u below member single w read p inside => ?_⟩
  cases member with
  | tail _ member => exact h.filled u below member single w read p inside
  | head =>
    rw [Node.joinedNames_table, if_neg (by simp [single]), List.nodup_cons] at apart
    rw [h.others u.fieldName apart.1] at read
    have before := filled u below (List.mem_cons_self ..) single w read p inside
    exact before.attached (unneeded u below rfl single)

/-- What was put into a table is left alone by the tables that come later. -/
theorem put {values : List Value} (h : Entered nodes o₁ o') (put : Put t.fieldName values o o₁)
    (apart : (Node.joinedNames (.table t children :: nodes)).Nodup) (single : t.isBatch = false)
    (filled : ∀ w ∈ values, ∀ p ∈ w.objects, Filled true children p) :
    Entered (.table t children :: nodes) o o' := by
  rw [Node.joinedNames_table, if_neg (by simp [single]), List.nodup_cons] at apart
  refine ⟨h.names.trans put.names, fun name other => ?_, fun u below member own w read => ?_⟩
  · rw [Node.joinedNames_table, if_neg (by simp [single]), List.mem_cons, not_or] at other
    exact (h.others name other.2).trans (put.others name other.1)
  · cases member with
    | tail _ member => exact h.filled u below member own w read
    | head =>
      rw [h.others t.fieldName apart.1] at read
      exact filled w (put.own w read)

end Entered

mutual

/-- Completed objects are as many as before, and nothing is left to fill in them. -/
theorem complete_filled : (n : Node) → n.Everywhere Table.TablesApart →
    {objects out : List (Fields Value)} → {s s' : Session σ} →
    (∀ o ∈ objects, Filled false n.children o) → complete fl d n objects s = (.ok out, s') →
    out.length = objects.length ∧ ∀ o ∈ out, Filled true n.children o
  | .table t children, apart, objects, out, s, s', filled, ran => by
    obtain ⟨fetched, s₁, batched, ran⟩ := Run.bind_ok.mp ran
    have tables := fetchBatches_batches batched
    have distinct : ((Node.batches children).map Table.fieldName).Nodup :=
      (List.filter_sublist.map _).nodup apart.1
    have supplied :=
      supplied_attachOne tables distinct (fetchBatches_filled _ children apart.2 batched)
    rw [Batch.attachAll_eq_map] at ran
    obtain ⟨length, each⟩ := runJoined_entered _ children apart.2 apart.1.joinsApart
      (fun _ _ => List.not_mem_nil) (fun o₁ member u below inner single w read => by
        obtain ⟨o, among, rfl⟩ := List.mem_map.mp member
        have unattached : u.fieldName ∉ (Node.batches children).map Table.fieldName := by
          intro attached
          obtain ⟨v, batch, same⟩ := List.mem_map.mp attached
          obtain ⟨table, batch⟩ := List.mem_filter.mp batch
          exact apart.1.batch_apart table batch (same ▸ Node.mem_joinedNames inner single)
        rw [(supplied o).others _ unattached] at read
        exact (filled o among).inside inner (by simp [Table.isHeld, single]) read) ran
    refine ⟨by rw [length, List.length_map], fun o' member => ?_⟩
    obtain ⟨_, changed, entered⟩ := each o' member
    obtain ⟨o, among, rfl⟩ := List.mem_map.mp changed
    exact (supplied o).filled entered apart.1 (filled o among)
  | .column _, _, _, _, _, _, filled, ran | .composite _, _, _, _, _, _, filled, ran
  | .noop _ _, _, _, _, _, _, filled, ran => by
    obtain ⟨rfl, _⟩ := Run.pure_ok.mp ran
    exact ⟨rfl, fun o member => (filled o member).attached rfl⟩

theorem fetchBatches_filled (w : Run.Waiting) : (nodes : List Node) →
    Node.EverywhereIn Table.TablesApart nodes → {objects : List (Fields Value)} →
    {fetched : Fetched} → {s s' : Session σ} →
    fetchBatches fl d w nodes objects s = (.ok fetched, s') →
    ∀ t children, .table t children ∈ nodes → t.isBatch →
      ∃ groups, (t, groups) ∈ fetched ∧ FilledGroups children groups
  | [], _, _, _, _, _, _ => by simp
  | .table t children :: r, apart, objects, fetched, s, s', ran => by
    rw [fetchBatches] at ran
    intro u below member batch
    split at ran
    · obtain ⟨groups, s₁, own, ran⟩ := Run.beside_ok.mp ran
      obtain ⟨others, s₂, later, ran⟩ := Run.bind_ok.mp ran
      obtain ⟨rfl, rfl⟩ := Run.pure_ok.mp ran
      cases member with
      | tail _ member =>
        obtain ⟨groups, among, filled⟩ := fetchBatches_filled w r apart.2 later u below member batch
        exact ⟨groups, List.mem_cons_of_mem _ among, filled⟩
      | head =>
        refine ⟨groups, List.mem_cons_self .., ?_⟩
        split at own
        · obtain ⟨rfl, _⟩ := Run.pure_ok.mp own
          exact nofun
        obtain ⟨made, s₃, got, own⟩ := Run.bind_ok.mp own
        have joins := Node.everywhere_mono (fun _ _ tables => tables.joinsApart) _ apart.1
        have values {w : Value} (member : w ∈ made.map Prod.snd) :=
          fetchGroups_filled joins batch got member
        split at own
        · obtain ⟨grown, s₄, within, own⟩ := Run.bind_ok.mp own
          obtain ⟨rfl, _⟩ := Run.pure_ok.mp own
          rintro _ ⟨⟩
          exact onGroups_filled (fun completed => complete_filled (.table t children) apart.1
            (fun p member => by
              obtain ⟨w, among, inside⟩ := Value.mem_itemObjects.mp member
              exact values among p inside) completed) within
        · rename_i unbatched
          obtain ⟨rfl, _⟩ := Run.pure_ok.mp own
          rintro _ ⟨⟩ w member p inside
          exact (values member p inside).attached (by simpa using unbatched)
    · rename_i single
      cases member with
      | head => exact (single batch).elim
      | tail _ member => exact fetchBatches_filled w r apart.2 ran u below member batch
  | .column _ :: r, apart, _, _, _, _, ran | .composite _ :: r, apart, _, _, _, _, ran
  | .noop _ _ :: r, apart, _, _, _, _, ran => by
    intro u below member batch
    cases member with
    | tail _ member => exact fetchBatches_filled w r apart.2 ran u below member batch

theorem runJoined_entered (w : Run.Waiting) : (nodes : List Node) →
    Node.EverywhereIn Table.TablesApart nodes → (Node.joinedNames nodes).Nodup →
    {seen : List String} → (∀ name ∈ Node.joinedNames nodes, name ∉ seen) →
    {objects out : List (Fields Value)} → {s s' : Session σ} →
    (∀ o ∈ objects, JoinsFilled nodes o) → runJoined fl d w seen nodes objects s = (.ok out, s') →
    Remade (Entered nodes) objects out
  | [], _, _, _, _, objects, out, s, s', _, ran => by
    obtain ⟨rfl, _⟩ := Run.pure_ok.mp ran
    exact ⟨rfl, fun o member => ⟨o, member, .refl o⟩⟩
  | .table t children :: r, apart, names, seen, unseen, objects, out, s, s', filled, ran => by
    have fewer : (Node.joinedNames r).Sublist (Node.joinedNames (.table t children :: r)) :=
      (List.sublist_cons_self _ r).filterMap _
    rw [runJoined] at ran
    split at ran
    · rename_i skipped
      obtain ⟨length, each⟩ := runJoined_entered w r apart.2 (fewer.nodup names)
        (fun name member => unseen name (fewer.subset member))
        (fun o member => (filled o member).later) ran
      refine ⟨length, fun o' member => ?_⟩
      obtain ⟨o, among, entered⟩ := each o' member
      refine ⟨o, among, entered.skip names (filled o among) ?_⟩
      rintro _ _ ⟨⟩ single
      have unseen := unseen _ (Node.mem_joinedNames (List.mem_cons_self ..) single)
      simpa [single, unseen] using skipped
    · rename_i entered
      have single : t.isBatch = false := by
        cases batch : t.isBatch with
        | false => rfl
        | true => simp [batch] at entered
      obtain ⟨changed, s₁, own, ran⟩ := Run.beside_ok.mp ran
      obtain ⟨values', s₂, grown, own⟩ := Run.bind_ok.mp own
      obtain ⟨rfl, rfl⟩ := Run.pure_ok.mp own
      obtain ⟨enough, values⟩ := onValues_filled (fun completed =>
        complete_filled (.table t children) apart.1 (JoinsFilled.heldIn filled single) completed)
        grown
      have put := putField_remade enough
      have joined := names
      rw [Node.joinedNames_table, if_neg (by simp [single]), List.nodup_cons] at joined
      obtain ⟨length, each⟩ := runJoined_entered w r apart.2 joined.2
        (fun name member seen => by
          cases seen with
          | head => exact joined.1 member
          | tail _ seen => exact unseen name (fewer.subset member) seen)
        (fun o₁ member u below inner own w read => by
          obtain ⟨o, among, put⟩ := put.each o₁ member
          have other : u.fieldName ≠ t.fieldName :=
            fun same => joined.1 (same ▸ Node.mem_joinedNames inner own)
          rw [put.others u.fieldName other] at read
          exact (filled o among).later u below inner own w read) ran
      refine ⟨length.trans put.length, fun o' member => ?_⟩
      obtain ⟨o₁, changed, entered⟩ := each o' member
      obtain ⟨o, among, put⟩ := put.each o₁ changed
      exact ⟨o, among, entered.put put names single values⟩
  | .column _ :: r, apart, names, _, unseen, _, _, _, _, filled, ran
  | .composite _ :: r, apart, names, _, unseen, _, _, _, _, filled, ran
  | .noop _ _ :: r, apart, names, _, unseen, _, _, _, _, filled, ran => by
    obtain ⟨length, each⟩ := runJoined_entered w r apart.2 names unseen
      (fun o member => (filled o member).later) ran
    refine ⟨length, fun o' member => ?_⟩
    obtain ⟨o, among, entered⟩ := each o' member
    exact ⟨o, among, entered.skip names (filled o among) (by rintro _ _ ⟨⟩)⟩

end

/-- Every object of a table in the result of its plan is filled. -/
theorem run_filled {v : Value} (apart : (Node.table t children).Everywhere Table.TablesApart)
    (ran : run fl d (.table t children) s = (.ok v, s')) :
    ∀ o ∈ v.objects, Filled true children o := by
  have joins := Node.everywhere_mono (fun _ _ tables => tables.joinsApart) _ apart
  obtain ⟨items, s₁, fetched, ran⟩ := Run.bind_ok.mp ran
  obtain ⟨value, s₂, made, ran⟩ := Run.bind_ok.mp ran
  obtain ⟨converted, rfl⟩ := Run.ofExcept_ok.mp made
  obtain ⟨shape, rows, shaped, hydrated⟩ := fetch_hydrated fetched
  have hydrates := Connection.Hydrates.all_or_first shaped hydrated (t.many || t.paginate)
  have filled := Connection.filled_convert (.table t children) joins hydrates converted
  split at ran
  · obtain ⟨values, s₃, changed, ran⟩ := Run.bind_ok.mp ran
    obtain ⟨rfl, _⟩ := Run.pure_ok.mp ran
    have own : ∀ o ∈ itemObjects [value], Filled false children o := by
      rw [itemObjects, itemObjects, List.append_nil]
      exact filled
    obtain ⟨length, values⟩ := onValues_filled (fun completed =>
      complete_filled (.table t children) apart own completed) changed
    obtain ⟨w, rfl⟩ := List.length_eq_one_iff.mp length
    exact values w (List.mem_singleton_self w)
  · rename_i unbatched
    obtain ⟨rfl, _⟩ := Run.pure_ok.mp ran
    have unbatched : Node.anyBatch children = false := by simpa using unbatched
    exact fun o member => (filled o member).attached unbatched

end Execution

end TreeQuery
