import Mathlib.Data.List.Perm.Basic
import TreeQuery.Proofs.Batch.Splicing

/-!
How often a parent is given a child. The statement of a batch asks for each key once, but the keys
of a parent are gone through as they stand, so that a child comes as often as its key is among them.
-/

namespace TreeQuery

section Occurrences

variable {α β κ : Type} [DecidableEq κ]

/-- What is picked by one key after the other comes as often as its key does. -/
theorem flatMap_filter_perm (keys : List κ) (key : α → Option κ) (xs : List α) :
    (keys.flatMap (fun k => xs.filter (fun x => key x = some k))).Perm
      (xs.flatMap (fun x => List.replicate ((keys.map some).count (key x)) x)) := by
  induction keys with
  | nil => simp
  | cons k keys inductionHypothesis =>
    have picked : xs.filter (fun x => key x = some k) =
        xs.flatMap (fun x => List.replicate (if some k == key x then 1 else 0) x) := by
      clear inductionHypothesis
      induction xs with
      | nil => rfl
      | cons x xs inductionHypothesis =>
        rw [List.filter_cons, List.flatMap_cons, inductionHypothesis]
        by_cases same : key x = some k
        · simp [same]
        · simp [same, Ne.symm same]
    rw [List.flatMap_cons, picked]
    refine (inductionHypothesis.append_left _).trans ((List.flatMap_append_perm ..).trans ?_)
    refine .of_eq (congrArg xs.flatMap (funext fun x => ?_))
    rw [List.map_cons, List.count_cons, List.replicate_append_replicate, Nat.add_comm]

theorem flatMap_replicate_eq_filter {n : α → ℕ} {xs : List α} (once : ∀ x ∈ xs, n x ≤ 1) :
    xs.flatMap (fun x => List.replicate (n x) x) = xs.filter (fun x => 0 < n x) := by
  induction xs with
  | nil => rfl
  | cons x xs inductionHypothesis =>
    obtain ⟨here, later⟩ := List.forall_mem_cons.mp once
    rw [List.flatMap_cons, List.filter_cons, inductionHypothesis later]
    rcases Nat.le_one_iff_eq_zero_or_eq_one.mp here with none | one
    · simp [none]
    · simp [one]

/-- As many as there are different ones only if none comes twice. -/
theorem once_of_length {n : α → ℕ} {xs : List α}
    (same : (xs.flatMap (fun x => List.replicate (n x) x)).length =
      (xs.filter (fun x => 0 < n x)).length) : ∀ x ∈ xs, n x ≤ 1 := by
  have atLeast (xs : List α) : (xs.filter (fun x => 0 < n x)).length ≤
      (xs.flatMap (fun x => List.replicate (n x) x)).length := by
    induction xs with
    | nil => exact Nat.le_refl _
    | cons x xs inductionHypothesis =>
      rw [List.filter_cons, List.flatMap_cons, List.length_append, List.length_replicate]
      split
      · rename_i some
        have present : 0 < n x := of_decide_eq_true some
        rw [List.length_cons]
        omega
      · omega
  induction xs with
  | nil => simp
  | cons x xs inductionHypothesis =>
    have others := atLeast xs
    rw [List.filter_cons, List.flatMap_cons, List.length_append, List.length_replicate] at same
    split at same
    · rename_i some
      have present : 0 < n x := of_decide_eq_true some
      rw [List.length_cons] at same
      exact List.forall_mem_cons.mpr ⟨by omega, inductionHypothesis (by omega)⟩
    · rename_i none
      have zero : n x = 0 := by simpa using none
      exact List.forall_mem_cons.mpr ⟨by omega, inductionHypothesis (by omega)⟩

end Occurrences

namespace Value

theorem refillItems_append (vs ws : List Value) (os : List (Fields Value)) :
    refillItems (vs ++ ws) os = ((refillItems vs os).1 ++ (refillItems ws (refillItems vs os).2).1,
      (refillItems ws (refillItems vs os).2).2) := by
  induction vs generalizing os with
  | nil => rfl
  | cons v vs inductionHypothesis =>
    simp only [List.cons_append, refillItems, inductionHypothesis]

theorem itemObjects_append (vs ws : List Value) :
    itemObjects (vs ++ ws) = itemObjects vs ++ itemObjects ws := by
  induction vs with
  | nil => rfl
  | cons v vs inductionHypothesis =>
    rw [List.cons_append, itemObjects, inductionHypothesis, itemObjects, List.append_assoc]

/-- The objects of lists are those of the items that the lists are made of. -/
theorem itemObjects_lists {κ : Type} (g : Grouping κ Value) :
    itemObjects (g.map (fun p => .list p.2)) = itemObjects (g.flatMap Prod.snd) := by
  induction g with
  | nil => rfl
  | cons p g inductionHypothesis =>
    rw [List.map_cons, List.flatMap_cons, itemObjects_append, itemObjects, inductionHypothesis]
    rfl

/-- Items stay in their lists, each in its place, when other objects are put into them. -/
theorem refillItems_lists {κ : Type} (g : Grouping κ Value) (os : List (Fields Value)) :
    ∃ grown : Grouping κ (Value × Value),
      g = grown.map (fun p => (p.1, p.2.map Prod.fst)) ∧
      (refillItems (g.map (fun p => .list p.2)) os).1 =
        grown.map (fun p => .list (p.2.map Prod.snd)) ∧
      (refillItems (g.flatMap Prod.snd) os).1 = (grown.flatMap Prod.snd).map Prod.snd := by
  induction g generalizing os with
  | nil => exact ⟨[], rfl, rfl, rfl⟩
  | cons p g inductionHypothesis =>
    obtain ⟨k, vs⟩ := p
    obtain ⟨grown, before, lists, items⟩ := inductionHypothesis (refillItems vs os).2
    have length := length_refillItems vs os
    refine ⟨(k, vs.zip (refillItems vs os).1) :: grown, ?_, ?_, ?_⟩
    · rw [List.map_cons, ← before, List.map_fst_zip (Nat.le_of_eq length.symm)]
    · rw [List.map_cons, List.map_cons, refillItems, refill, List.map_snd_zip (Nat.le_of_eq length), ← lists]
    · rw [List.flatMap_cons, List.flatMap_cons, refillItems_append, List.map_append,
        List.map_snd_zip (Nat.le_of_eq length), ← items]

end Value

namespace Batch

open Plan (Node Table)

/-- How often the key of an item is among the keys of a parent. -/
def timesAsked (t : Table) (keys : Plan.Batch) (o : Fields Value) (v : Value) : ℕ :=
  ((parentKeys t o).map some).count (Groups.itemKey? keys.thisKey.fieldName v)

/-- Items as they are given to a parent, out of pairs of an item as it was returned and as it is
given: each as often as its key is asked for. They are given once each just if no key of one is
asked for twice. -/
structure HandedOut (asked : Value → ℕ) (pairs : List (Value × Value)) (given : List Value) :
    Prop where
  often : given.Perm (pairs.flatMap (fun p => List.replicate (asked p.1) p.2))
  once_iff : given.Perm ((pairs.filter (fun p => 0 < asked p.1)).map Prod.snd) ↔
    ∀ p ∈ pairs, asked p.1 ≤ 1

theorem HandedOut.of_perm {asked : Value → ℕ} {pairs given : List (Value × Value)}
    (often : given.Perm (pairs.flatMap (fun p => List.replicate (asked p.1) p))) :
    HandedOut asked pairs (given.map Prod.snd) where
  often := by
    refine (often.map Prod.snd).trans (.of_eq ?_)
    rw [List.map_flatMap]
    simp only [List.map_replicate]
  once_iff := by
    constructor
    · intro once
      refine once_of_length (n := fun p : Value × Value => asked p.1) ?_
      have length := once.length_eq
      rw [List.length_map, List.length_map, often.length_eq] at length
      exact length
    · intro once
      rw [← flatMap_replicate_eq_filter (n := fun p : Value × Value => asked p.1) once]
      exact often.map Prod.snd

variable {t : Table} {keys : Plan.Batch} {items : List Value} {grown : Grouping Key (Value × Value)}

theorem nodup_keys_ofItems : (Groups.ofItems keys.thisKey.fieldName items).keys.Nodup := by
  rw [Groups.ofItems, Grouping.keys_ofPairs]
  exact nodup_distinct _

/-- Grouping keeps the items that have a key. -/
theorem flatMap_ofItems_perm : ((Groups.ofItems keys.thisKey.fieldName items).flatMap Prod.snd).Perm
    (items.filter (fun v => (Groups.itemKey? keys.thisKey.fieldName v).isSome)) := by
  have listed : (Groups.ofItems keys.thisKey.fieldName items).flatMap Prod.snd =
      (Groups.ofItems keys.thisKey.fieldName items).keys.flatMap (childrenOf keys items) := by
    conv_lhs => rw [Grouping.eq_map_valuesOf nodup_keys_ofItems]
    rw [List.flatMap_map]
    exact congrArg (List.flatMap · _) (funext valuesOf_ofItems)
  have single (v : Value) : (((Groups.ofItems keys.thisKey.fieldName items).keys.map some).count
      (Groups.itemKey? keys.thisKey.fieldName v)) ≤ 1 :=
    List.nodup_iff_count_le_one.mp (nodup_keys_ofItems.map fun _ _ => Option.some.inj) _
  rw [listed]
  refine (flatMap_filter_perm _ (Groups.itemKey? keys.thisKey.fieldName) items).trans (.of_eq ?_)
  rw [flatMap_replicate_eq_filter fun v _ => single v]
  refine List.filter_congr fun v member => ?_
  rw [Bool.eq_iff_iff, decide_eq_true_eq, List.count_pos_iff]
  cases key : Groups.itemKey? keys.thisKey.fieldName v with
  | none => simp
  | some k =>
    have child : v ∈ childrenOf keys items k := by simpa [childrenOf] using ⟨member, key⟩
    simpa using (mem_keys_ofItems k).mpr (List.ne_nil_of_mem child)

/-- The groups of a batch, each item beside what was made of it. -/
def GrownFrom (keys : Plan.Batch) (items : List Value) (grown : Grouping Key (Value × Value)) :
    Prop :=
  Groups.ofItems keys.thisKey.fieldName items = grown.map (fun p => (p.1, p.2.map Prod.fst))

namespace GrownFrom

theorem nodup_keys (h : GrownFrom keys items grown) : grown.keys.Nodup := by
  have same : grown.keys = (Groups.ofItems keys.thisKey.fieldName items).keys := by
    rw [h, Grouping.keys, Grouping.keys, List.map_map]
    rfl
  exact same ▸ nodup_keys_ofItems

theorem ne_nil (h : GrownFrom keys items grown) {p : Key × List (Value × Value)}
    (member : p ∈ grown) : p.2 ≠ [] := by
  have among : (p.1, p.2.map Prod.fst) ∈ Groups.ofItems keys.thisKey.fieldName items :=
    h ▸ List.mem_map_of_mem member
  simpa using ne_nil_of_mem_ofItems among

/-- An item stands in the group of its key. -/
theorem itemKey?_eq (h : GrownFrom keys items grown) {p : Key × List (Value × Value)}
    (member : p ∈ grown) {x : Value × Value} (inside : x ∈ p.2) :
    Groups.itemKey? keys.thisKey.fieldName x.1 = some p.1 := by
  have among : (p.1, p.2.map Prod.fst) ∈ Groups.ofItems keys.thisKey.fieldName items :=
    h ▸ List.mem_map_of_mem member
  exact itemKey?_of_mem_ofItems among (List.mem_map_of_mem inside)

/-- The items are those that came with a key. -/
theorem perm (h : GrownFrom keys items grown) : ((grown.flatMap Prod.snd).map Prod.fst).Perm
    (items.filter (fun v => (Groups.itemKey? keys.thisKey.fieldName v).isSome)) := by
  have listed : (grown.flatMap Prod.snd).map Prod.fst =
      (Groups.ofItems keys.thisKey.fieldName items).flatMap Prod.snd := by
    rw [h, List.map_flatMap, List.flatMap_map]
  rw [listed]
  exact flatMap_ofItems_perm

/-- What a parent is given. -/
theorem handedOut (h : GrownFrom keys items grown) (many : t.many) (unpaged : ¬t.paginate)
    (o : Fields Value) : ∃ given : List Value,
      attach t (some (grown.map (fun p => (p.1, .list (p.2.map Prod.snd))))) o =
        (if given.isEmpty then .null else .list given) ∧
      HandedOut (timesAsked t keys o) (grown.flatMap Prod.snd) given := by
  let completed : Grouping Key Value := grown.map (fun p => (p.1, p.2.map Prod.snd))
  have nonempty : ∀ p ∈ completed, p.2 ≠ [] := by
    intro p member
    obtain ⟨q, among, rfl⟩ := List.mem_map.mp member
    simpa using h.ne_nil among
  have groups : grown.map (fun p => (p.1, Value.list (p.2.map Prod.snd))) =
      completed.map (fun p => (p.1, .list p.2)) := by
    rw [List.map_map]
    rfl
  obtain ⟨lists, found, present, all⟩ := filterMap_get?_lists nonempty (parentKeys t o)
  have values : completed.valuesOf = fun k => (grown.valuesOf k).map Prod.snd :=
    funext (Grouping.valuesOf_map Prod.snd grown)
  refine ⟨((parentKeys t o).flatMap grown.valuesOf).map Prod.snd, ?_, .of_perm ?_⟩
  · rw [groups, attach_lists many unpaged found present, all, List.map_flatMap, values]
  · have own := Grouping.filter_flatMap h.nodup_keys
      (fun p member x inside => h.itemKey?_eq member inside)
    rw [← funext own]
    exact flatMap_filter_perm ..

end GrownFrom

end Batch

namespace Execution

open Batch (GrownFrom HandedOut timesAsked)
open Plan (Node Table)

variable {σ : Type} {fl : Sql.Flavor} {d : Driver σ} {s s' : Session σ}

/-- Pairs of an item of a batch and what the batches below it made of it. -/
def Completed (fl : Sql.Flavor) (d : Driver σ) (t : Table) (children : List Node)
    (pairs : List (Value × Value)) (s s' : Session σ) : Prop :=
  if Node.anyBatch children then
    pairs = [] ∨ onValues (complete fl d (.table t children)) (pairs.map Prod.fst) s =
      (.ok (pairs.map Prod.snd), s')
  else ∀ p ∈ pairs, p.2 = p.1

/-- Groups of lists are changed as the items of all of them. -/
theorem onGroups_lists {f : List (Fields Value) → Task σ (List (Fields Value))}
    {g : Grouping Key Value} {groups : Groups}
    (ran : onGroups f (g.map (fun p => (p.1, .list p.2))) s = (.ok groups, s')) :
    ∃ grown : Grouping Key (Value × Value), g = grown.map (fun p => (p.1, p.2.map Prod.fst)) ∧
      groups = grown.map (fun p => (p.1, .list (p.2.map Prod.snd))) ∧
      onValues f ((grown.flatMap Prod.snd).map Prod.fst) s =
        (.ok ((grown.flatMap Prod.snd).map Prod.snd), s') := by
  obtain ⟨values, s₁, changed, ran⟩ := Run.bind_ok.mp ran
  obtain ⟨rfl, rfl⟩ := Run.pure_ok.mp ran
  obtain ⟨out, s₂, applied, changed⟩ := Run.bind_ok.mp changed
  obtain ⟨rfl, rfl⟩ := Run.pure_ok.mp changed
  have lists : (g.map (fun p => (p.1, Value.list p.2))).map Prod.snd =
      g.map (fun p => .list p.2) := by
    rw [List.map_map]
    rfl
  rw [lists, Value.itemObjects_lists] at applied
  obtain ⟨grown, before, refilled, items⟩ := Value.refillItems_lists g out
  have first : (grown.flatMap Prod.snd).map Prod.fst = g.flatMap Prod.snd := by
    rw [before, List.map_flatMap, List.flatMap_map]
  refine ⟨grown, before, ?_, ?_⟩
  · rw [lists, refilled, before, List.map_map, List.map_map, List.zip_map']
    rfl
  · rw [onValues, first, Run.bind_of_ok applied, items]
    rfl

/-- What is run for one batch. -/
def fetchBatch (fl : Sql.Flavor) (d : Driver σ) (t : Table) (children : List Node)
    (objects : List (Fields Value)) : Task σ (Option Groups) :=
  if (Batch.scope t objects).isEmpty then return none
  else do
    let groups ← fetchGroups fl d t children (Batch.scope t objects)
    if Node.anyBatch children then
      some <$> onGroups (complete fl d (.table t children)) groups
    else return some groups

variable {w : Run.Waiting} {nodes children : List Node} {objects : List (Fields Value)}
variable {fetched : Fetched} {t : Table} {groups : Option Groups} {keys : Plan.Batch}

theorem fetchBatch_of_mem (ran : fetchBatches fl d w nodes objects s = (.ok fetched, s'))
    (member : (t, groups) ∈ fetched) : ∃ children s₀ s₁, .table t children ∈ nodes ∧
      fetchBatch fl d t children objects s₀ = (.ok groups, s₁) := by
  induction nodes generalizing s s' fetched with
  | nil =>
    obtain ⟨rfl, _⟩ := Run.pure_ok.mp ran
    cases member
  | cons n nodes inductionHypothesis =>
    have later {fetched : Fetched} {s s' : Session σ}
        (ran : fetchBatches fl d w nodes objects s = (.ok fetched, s'))
        (member : (t, groups) ∈ fetched) : ∃ children s₀ s₁, .table t children ∈ n :: nodes ∧
          fetchBatch fl d t children objects s₀ = (.ok groups, s₁) := by
      obtain ⟨children, s₀, s₁, below, own⟩ := inductionHypothesis ran member
      exact ⟨children, s₀, s₁, List.mem_cons_of_mem n below, own⟩
    cases n with
    | table u children =>
      rw [fetchBatches] at ran
      split at ran
      · obtain ⟨made, s₁, own, ran⟩ := Run.beside_ok.mp ran
        obtain ⟨others, s₂, rest, ran⟩ := Run.bind_ok.mp ran
        obtain ⟨rfl, _⟩ := Run.pure_ok.mp ran
        cases member with
        | head => exact ⟨children, s, s₁, List.mem_cons_self .., own⟩
        | tail _ member => exact later rest member
      · exact later ran member
    | column _ | composite _ | noop _ _ => exact later ran member

/-- Without batches below, the groups hold the items as they were returned. -/
theorem grownFrom_self (items : List Value) : GrownFrom keys items
    ((Groups.ofItems keys.thisKey.fieldName items).map
      (fun p => (p.1, p.2.map (fun v => (v, v))))) := by
  rw [GrownFrom, List.map_map]
  simp [Function.comp_def]

theorem fetchBatch_grown (hk : t.batchKeys? = some keys) (unpaged : ¬t.paginate)
    (ran : fetchBatch fl d t children objects s = (.ok groups, s')) :
    ∃ items grown s₁, Returned fl d t children (Batch.scope t objects) s items s₁ ∧
      GrownFrom keys items grown ∧ Completed fl d t children (grown.flatMap Prod.snd) s₁ s' ∧
      groups.getD [] = grown.map (fun p => (p.1, .list (p.2.map Prod.snd))) := by
  rw [fetchBatch] at ran
  split at ran
  · rename_i unneeded
    obtain ⟨rfl, rfl⟩ := Run.pure_ok.mp ran
    refine ⟨[], [], s, ?_, rfl, ?_, rfl⟩
    · rw [Returned, if_pos unneeded]
      exact ⟨rfl, rfl⟩
    · unfold Completed
      split
      · exact .inl rfl
      · exact nofun
  rename_i needed
  obtain ⟨made, s₁, got, ran⟩ := Run.bind_ok.mp ran
  obtain ⟨hydrated, items, read, converted, grouped⟩ := fetchGroups_ok hk got
  have returned : Returned fl d t children (Batch.scope t objects) s items s₁ := by
    rw [Returned, if_neg needed]
    exact ⟨hydrated, read, converted⟩
  rw [Batch.groupValues_unpaged unpaged] at grouped
  cases grouped
  split at ran
  · rename_i below
    obtain ⟨_, s₂, within, ran⟩ := Run.bind_ok.mp ran
    obtain ⟨rfl, rfl⟩ := Run.pure_ok.mp ran
    obtain ⟨grown, grew, rfl, completed⟩ := onGroups_lists within
    refine ⟨items, grown, s₁, returned, grew, ?_, rfl⟩
    rw [Completed, if_pos below]
    exact .inr completed
  · rename_i unbatched
    obtain ⟨rfl, rfl⟩ := Run.pure_ok.mp ran
    refine ⟨items, _, s₁, returned, grownFrom_self items, ?_, ?_⟩
    · rw [Completed, if_neg unbatched]
      intro x member
      obtain ⟨p, among, inside⟩ := List.mem_flatMap.mp member
      obtain ⟨q, _, rfl⟩ := List.mem_map.mp among
      obtain ⟨v, _, rfl⟩ := List.mem_map.mp inside
      rfl
    · simp [Function.comp_def]

/-- A batch of lists, whatever stands beside it and below it. Every parent is given each item that
the statement returned as often as the item's key is among its own. It is given those whose key is
among its own exactly once each if and only if it has no such key twice. -/
theorem attached_once_iff (ran : fetchBatches fl d w nodes objects s = (.ok fetched, s'))
    (member : (t, groups) ∈ fetched) (hk : t.batchKeys? = some keys) (many : t.many)
    (unpaged : ¬t.paginate) :
    ∃ children items pairs s₀ s₁ s₂, .table t children ∈ nodes ∧
      Returned fl d t children (Batch.scope t objects) s₀ items s₁ ∧
      (pairs.map Prod.fst).Perm
        (items.filter (fun v => (Groups.itemKey? keys.thisKey.fieldName v).isSome)) ∧
      Completed fl d t children pairs s₁ s₂ ∧
      ∀ o, ∃ given : List Value,
        Batch.attach t groups o = (if given.isEmpty then .null else .list given) ∧
        HandedOut (timesAsked t keys o) pairs given := by
  obtain ⟨children, s₀, s₂, below, own⟩ := fetchBatch_of_mem ran member
  obtain ⟨items, grown, s₁, returned, grew, completed, grouped⟩ := fetchBatch_grown hk unpaged own
  refine ⟨children, items, _, s₀, s₁, s₂, below, returned, grew.perm, completed, fun o => ?_⟩
  rw [attach_getD, grouped]
  exact grew.handedOut many unpaged o

def booksByShelf : Groups :=
  [(.int 4, .list [bookOf 1 4, bookOf 3 4]), (.int 7, .list [bookOf 2 7])]

theorem attached_once_iff_shelves :
    ∃ keys s' children items pairs s₀ s₁ s₂,
      fetchBatches .sqlite library .together [.table book bookColumns] (Value.itemObjects shelves)
        ⟨(), false, []⟩ = (.ok [(book, some booksByShelf)], s') ∧
      book.batchKeys? = some keys ∧ .table book children ∈ [Node.table book bookColumns] ∧
      Returned .sqlite library book children (Batch.scope book (Value.itemObjects shelves)) s₀ items
        s₁ ∧
      (pairs.map Prod.fst).Perm
        (items.filter (fun v => (Groups.itemKey? keys.thisKey.fieldName v).isSome)) ∧
      Completed .sqlite library book children pairs s₁ s₂ ∧
      ∀ o, ∃ given : List Value,
        Batch.attach book (some booksByShelf) o =
          (if given.isEmpty then .null else .list given) ∧
        HandedOut (timesAsked book keys o) pairs given := by
  have ran : fetchBatches .sqlite library .together [.table book bookColumns]
      (Value.itemObjects shelves) ⟨(), false, []⟩ = (.ok [(book, some booksByShelf)], _) :=
    Prod.ext rfl rfl
  obtain ⟨children, items, pairs, s₀, s₁, s₂, given⟩ :=
    attached_once_iff ran (List.mem_singleton_self _) rfl rfl nofun
  exact ⟨_, _, children, items, pairs, s₀, s₁, s₂, ran, rfl, given⟩

/-- A shelf with one number twice, as an integer and as a double. -/
def twiceNumbered : Fields Value :=
  [("no", .json (.array [.number (.natural 4), .number (.double (.ofInt 4))]))]

/-- Its books are all different, and it is given each of them twice. -/
theorem attached_twice_shelf : ∃ fetched s',
    fetchBatches .sqlite library .together [.table book bookColumns] [twiceNumbered]
      ⟨(), false, []⟩ = (.ok fetched, s') ∧
    Returned .sqlite library book bookColumns (Batch.scope book [twiceNumbered]) ⟨(), false, []⟩
      [bookOf 1 4, bookOf 2 7, bookOf 3 4] s' ∧
    [bookOf 1 4, bookOf 2 7, bookOf 3 4].Nodup ∧
    Batch.attachAll fetched [twiceNumbered] = [Fields.insert twiceNumbered "books"
      (.list [bookOf 1 4, bookOf 3 4, bookOf 1 4, bookOf 3 4])] := by
  refine ⟨[(book, some booksByShelf)], _, Prod.ext rfl rfl, ⟨_, Prod.ext rfl rfl, rfl⟩, ?_, rfl⟩
  simp [bookOf]

end Execution

end TreeQuery
