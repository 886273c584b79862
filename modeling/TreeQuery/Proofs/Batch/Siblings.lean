import Mathlib.Data.List.Forall2
import TreeQuery.Proofs.Batch.Splicing
import TreeQuery.Proofs.Execution.ValidResults
import TreeQuery.Proofs.Plan.WellFormed

/-!
Sibling batches, which are attached to the same objects one after the other. Each reads its parents'
keys from objects that the batches before it were written to, so a batch whose field has the name of
a later one's key takes the key away.
-/

namespace TreeQuery

open Plan (Node Table)

namespace Plan

/-- The batch boundaries among some nodes, in the order in which they are fetched and attached. -/
def Node.batches (nodes : List Node) : List Table := (Node.tables nodes).filter Table.isBatch

/-- The field of the first table is the one that the second finds its parents' keys in. -/
def Table.Overwrites (t u : Table) : Prop :=
  ∃ keys, u.batchKeys? = some keys ∧ keys.parentKey.fieldName = t.fieldName

end Plan

namespace Batch

/-- Attaches some batches to one object. -/
def attachOne (fetched : List (Table × Option Groups)) (o : Fields Value) : Fields Value :=
  fetched.foldl (fun o f => Fields.insert o f.1.fieldName (attach f.1 f.2 o)) o

/-- The fields that batches are attached as. -/
def fieldNames (fetched : List (Table × Option Groups)) : List String :=
  fetched.map (fun f => f.1.fieldName)

theorem attachAll_eq_map (fetched : List (Table × Option Groups)) (objects : List (Fields Value)) :
    attachAll fetched objects = objects.map (attachOne fetched) := by
  induction fetched generalizing objects with
  | nil => exact (List.map_id objects).symm
  | cons f fetched inductionHypothesis =>
    rw [attachAll, inductionHypothesis, List.map_map]
    rfl

variable {t u : Table} {fetched before after : List (Table × Option Groups)} {o o' : Fields Value}
variable {groups : Option Groups}

/-- Only the field of its parents' keys decides what an object is given. -/
theorem attach_congr (same : ∀ keys, t.batchKeys? = some keys →
      Fields.get? o keys.parentKey.fieldName = Fields.get? o' keys.parentKey.fieldName) :
    attach t groups o = attach t groups o' := by
  have keys : parentKeys t o = parentKeys t o' := by
    unfold parentKeys
    cases batch : t.batchKeys? with
    | none => rfl
    | some keys => exact congrArg (fun v => (v.map Value.keys).getD []) (same keys batch)
  simp only [attach, keys]

theorem get?_attachOne_of_notMem {name : String} (other : name ∉ fieldNames fetched) :
    Fields.get? (attachOne fetched o) name = Fields.get? o name := by
  induction fetched generalizing o with
  | nil => rfl
  | cons f fetched inductionHypothesis =>
    rw [fieldNames, List.map_cons, List.mem_cons, not_or] at other
    obtain ⟨here, later⟩ := other
    exact (inductionHypothesis later).trans ((Fields.get?_insert ..).trans (if_neg (Ne.symm here)))

/-- A batch reads the keys from what the batches before it left. -/
theorem get?_attachOne_split (last : t.fieldName ∉ fieldNames after) :
    Fields.get? (attachOne (before ++ (t, groups) :: after) o) t.fieldName =
      some (attach t groups (attachOne before o)) := by
  rw [attachOne, List.foldl_append, List.foldl_cons]
  exact (get?_attachOne_of_notMem last).trans ((Fields.get?_insert ..).trans (if_pos rfl))

theorem nodup_fieldNames_split (distinct : (fieldNames (before ++ (t, groups) :: after)).Nodup) :
    (fieldNames before).Nodup ∧ t.fieldName ∉ fieldNames after := by
  rw [fieldNames, List.map_append, List.nodup_append] at distinct
  exact ⟨distinct.1, (List.nodup_cons.mp distinct.2.1).1⟩

/-- What an object should be after some batches were attached to it: each batch as to the object as
it was, and all other fields as they were. -/
structure Attached (fetched : List (Table × Option Groups)) (o o' : Fields Value) : Prop where
  own : ∀ f ∈ fetched, Fields.get? o' f.1.fieldName = some (attach f.1 f.2 o)
  others : ∀ name ∉ fieldNames fetched, Fields.get? o' name = Fields.get? o name

/-- A batch that comes after others is attached alike if they leave its key alone. -/
theorem attach_attachOne (apart : ∀ f ∈ before, ¬f.1.Overwrites t) :
    attach t groups (attachOne before o) = attach t groups o := by
  apply attach_congr
  intro keys batch
  apply get?_attachOne_of_notMem
  intro among
  obtain ⟨f, member, same⟩ := List.mem_map.mp among
  exact apart f member ⟨keys, batch, same.symm⟩

theorem attached_of_pairwise (distinct : (fieldNames fetched).Nodup)
    (apart : fetched.Pairwise (fun f g => ¬f.1.Overwrites g.1)) :
    Attached fetched o (attachOne fetched o) where
  own f member := by
    obtain ⟨before, after, rfl⟩ := List.append_of_mem member
    have last := (nodup_fieldNames_split distinct).2
    refine (get?_attachOne_split last).trans (congrArg some (attach_attachOne ?_))
    intro g earlier
    exact (List.pairwise_append.mp apart).2.2 g earlier f (List.mem_cons_self ..)
  others _ other := get?_attachOne_of_notMem other

section Disturbed

/-- What is attached where no children are found. -/
def nothing (t : Table) : Value := if t.many && t.paginate then .emptyConnection else .null

theorem attach_keyless (keyless : parentKeys t o = []) : attach t groups o = nothing t := by
  unfold attach nothing
  cases groups <;> cases t.many <;> cases t.paginate <;> simp [keyless]

theorem attach_none : attach t none o = nothing t := by
  unfold attach nothing
  cases t.many <;> cases t.paginate <;> rfl

theorem keys_nothing : (nothing t).keys = [] := by
  unfold nothing
  split <;> rfl

/-- A child for the key that is one. -/
def oneChild : Groups := [(.int 1, .list [.object []])]

theorem attach_oneChild (batch : t.Overwrites u) :
    attach u (some oneChild) [(t.fieldName, .int 1)] ≠ nothing u := by
  obtain ⟨keys, batch, same⟩ := batch
  have key : parentKeys u [(t.fieldName, .int 1)] = [.int 1] := by
    rw [parentKeys, batch]
    simp only [same, Fields.get?_cons, if_true, Option.map_some, Option.getD_some]
    rfl
  have found : ([.int 1] : List Key).filterMap oneChild.get? = [.list [.object []]] := rfl
  unfold attach nothing
  simp only [key, found]
  cases u.many <;> cases u.paginate <;>
    simp [Value.emptyConnection, Value.list?]

/-- A batch without children leaves no key in its field. -/
theorem attach_overwritten (distinct : (fieldNames before).Nodup) (member : (t, none) ∈ before)
    (batch : t.Overwrites u) : attach u groups (attachOne before o) = nothing u := by
  obtain ⟨keys, batch, same⟩ := batch
  obtain ⟨first, rest, rfl⟩ := List.append_of_mem member
  have last := (nodup_fieldNames_split distinct).2
  apply attach_keyless
  rw [parentKeys, batch]
  simp only [same, get?_attachOne_split last, attach_none, Option.map_some, Option.getD_some,
    keys_nothing]

end Disturbed

section Orders

variable {ts : List Table}

/-- A batch of one key, with a child, and its siblings without children. -/
def fetchedFor (u : Table) (ts : List Table) : List (Table × Option Groups) :=
  ts.map (fun t => (t, if t.fieldName = u.fieldName then some oneChild else none))

theorem map_fst_fetchedFor (u : Table) (ts : List Table) : (fetchedFor u ts).map Prod.fst = ts := by
  rw [fetchedFor, List.map_map]
  exact List.map_id ts

theorem fieldNames_of_tables (same : fetched.map Prod.fst = ts) :
    fieldNames fetched = ts.map Table.fieldName := by
  rw [← same, List.map_map]
  rfl

theorem fieldName_ne_of_sublist (distinct : (ts.map Table.fieldName).Nodup)
    (order : [t, u].Sublist ts) : t.fieldName ≠ u.fieldName := by
  have names := (order.map Table.fieldName).nodup distinct
  simpa using names

/-- The batch with a child, and a sibling that has the field of its key. -/
theorem fetchedFor_split (distinct : (ts.map Table.fieldName).Nodup) (ht : t ∈ ts) (hu : u ∈ ts)
    (apart : t.fieldName ≠ u.fieldName) : ∃ before after,
      fetchedFor u ts = before ++ (u, some oneChild) :: after ∧ (t, none) ∈ before ++ after ∧
      (fieldNames (before ++ after)).Nodup ∧ u.fieldName ∉ fieldNames (before ++ after) := by
  have here : (u, some oneChild) ∈ fetchedFor u ts := List.mem_map.mpr ⟨u, hu, by rw [if_pos rfl]⟩
  have there : (t, none) ∈ fetchedFor u ts := List.mem_map.mpr ⟨t, ht, by rw [if_neg apart]⟩
  obtain ⟨before, after, split⟩ := List.append_of_mem here
  rw [← fieldNames_of_tables (map_fst_fetchedFor u ts), split] at distinct
  have moved : (fieldNames (before ++ (u, some oneChild) :: after)).Perm
      (u.fieldName :: fieldNames (before ++ after)) := List.perm_middle.map _
  obtain ⟨fresh, others⟩ := List.nodup_cons.mp (moved.nodup_iff.mp distinct)
  refine ⟨before, after, split, ?_, others, fresh⟩
  rw [split, List.mem_append, List.mem_cons] at there
  rcases there with first | same | later
  · exact List.mem_append_left _ first
  · cases same
  · exact List.mem_append_right _ later

/-- An earlier batch without children takes the key of a later one away. -/
theorem not_attached (distinct : (ts.map Table.fieldName).Nodup) (order : [t, u].Sublist ts)
    (batch : t.Overwrites u) :
    ∃ o, ¬Attached (fetchedFor u ts) o (attachOne (fetchedFor u ts) o) := by
  have apart := fieldName_ne_of_sublist distinct order
  have both := order.map (fun t => (t, if t.fieldName = u.fieldName then some oneChild else none))
  rw [List.map_cons, List.map_singleton, if_neg apart, if_pos rfl] at both
  obtain ⟨first, rest, split, earlier, later⟩ := List.cons_sublist_iff.mp both
  obtain ⟨middle, after, rfl⟩ := List.append_of_mem (List.singleton_sublist.mp later)
  have split : fetchedFor u ts = (first ++ middle) ++ (u, some oneChild) :: after := by
    rw [List.append_assoc]
    exact split
  rw [← fieldNames_of_tables (map_fst_fetchedFor u ts), split] at distinct
  obtain ⟨names, last⟩ := nodup_fieldNames_split distinct
  refine ⟨[(t.fieldName, .int 1)], fun attached => attach_oneChild batch ?_⟩
  have own : (u, some oneChild) ∈ fetchedFor u ts :=
    split ▸ List.mem_append_right _ (List.mem_cons_self ..)
  have right := attached.own _ own
  rw [split, get?_attachOne_split last,
    attach_overwritten names (List.mem_append_left _ earlier) batch] at right
  exact (Option.some.inj right).symm

/-- The same fields, in whatever order. -/
def SameFields (o o' : Fields Value) : Prop := ∀ name, Fields.get? o name = Fields.get? o' name

/-- If no order matters, no batch has the field of another one's key. -/
theorem not_overwrites (distinct : (ts.map Table.fieldName).Nodup) (ht : t ∈ ts) (hu : u ∈ ts)
    (apart : t.fieldName ≠ u.fieldName)
    (orders : ∀ fetched', fetched'.Perm (fetchedFor u ts) → ∀ o,
      SameFields (attachOne (fetchedFor u ts) o) (attachOne fetched' o)) : ¬t.Overwrites u := by
  intro batch
  obtain ⟨before, after, split, sibling, names, fresh⟩ := fetchedFor_split distinct ht hu apart
  rw [split] at orders
  have first := orders ([] ++ (u, some oneChild) :: (before ++ after)) List.perm_middle.symm
    [(t.fieldName, .int 1)] u.fieldName
  have last := orders ((before ++ after) ++ (u, some oneChild) :: []) (by
      rw [List.append_assoc]
      exact List.Perm.append_left before List.perm_append_comm) [(t.fieldName, .int 1)] u.fieldName
  have alone : u.fieldName ∉ fieldNames [] := List.not_mem_nil
  rw [get?_attachOne_split fresh] at first
  rw [get?_attachOne_split alone, attach_overwritten names sibling batch] at last
  exact attach_oneChild batch (Option.some.inj (first.symm.trans last))

/-- Without such a batch, each gives what it would give alone, and in any order the same. -/
theorem sameFields_of_perm {fetched' : List (Table × Option Groups)}
    (distinct : (fieldNames fetched).Nodup) (perm : fetched'.Perm fetched)
    (apart : fetched.Pairwise (fun f g => ¬f.1.Overwrites g.1 ∧ ¬g.1.Overwrites f.1)) :
    SameFields (attachOne fetched o) (attachOne fetched' o) := by
  have names : (fieldNames fetched').Perm (fieldNames fetched) := perm.map _
  have apart' := (perm.pairwise_iff (fun h => h.symm)).mpr apart
  have here : Attached fetched o _ := attached_of_pairwise distinct (apart.imp And.left)
  have there : Attached fetched' o _ :=
    attached_of_pairwise (names.nodup_iff.mpr distinct) (apart'.imp And.left)
  intro name
  by_cases own : name ∈ fieldNames fetched
  · obtain ⟨f, member, rfl⟩ := List.mem_map.mp own
    rw [here.own f member, there.own f (perm.mem_iff.mpr member)]
  · rw [here.others name own, there.others name (fun h => own (names.mem_iff.mp h))]

end Orders

theorem forall₂_attachAll {R : Fields Value → Fields Value → Prop} :
    (∀ objects, List.Forall₂ R objects (attachAll fetched objects)) ↔
      ∀ o, R o (attachOne fetched o) := by
  constructor
  · intro h o
    have one := h [o]
    rw [attachAll_eq_map] at one
    exact (List.forall₂_cons.mp one).1
  · intro h objects
    rw [attachAll_eq_map, List.forall₂_map_right_iff]
    exact List.forall₂_same.mpr (fun o _ => h o)

theorem forall₂_attachAll_both {R : Fields Value → Fields Value → Prop}
    {fetched' : List (Table × Option Groups)} :
    (∀ objects, List.Forall₂ R (attachAll fetched objects) (attachAll fetched' objects)) ↔
      ∀ o, R (attachOne fetched o) (attachOne fetched' o) := by
  rw [← forall₂_attachAll (R := fun o o' => R (attachOne fetched o) o')]
  refine forall_congr' (fun objects => ?_)
  rw [attachAll_eq_map fetched, List.forall₂_map_left_iff]

end Batch

namespace Execution

variable {σ : Type} {fl : Sql.Flavor} {d : Driver σ}

/-- A run has results for all batches among the nodes, in their order. -/
theorem fetchBatches_batches {nodes : List Node} {w : Run.Waiting} {objects : List (Fields Value)}
    {fetched : Fetched} {s s' : Session σ}
    (ran : fetchBatches fl d w nodes objects s = (.ok fetched, s')) :
    fetched.map Prod.fst = Node.batches nodes := by
  induction nodes generalizing s s' fetched with
  | nil =>
    obtain ⟨rfl, _⟩ := Run.pure_ok.mp ran
    rfl
  | cons n nodes inductionHypothesis =>
    match n with
    | .table t children =>
      have tables : Node.batches (.table t children :: nodes) =
          (t :: Node.tables nodes).filter Table.isBatch := rfl
      rw [tables, List.filter_cons]
      rw [fetchBatches] at ran
      split at ran
      · rename_i batch
        obtain ⟨groups, s₁, _, ran⟩ := Run.beside_ok.mp ran
        obtain ⟨rest, s₂, later, ran⟩ := Run.bind_ok.mp ran
        obtain ⟨rfl, _⟩ := Run.pure_ok.mp ran
        rw [if_pos batch, List.map_cons, inductionHypothesis later]
        rfl
      · rename_i single
        rw [if_neg single]
        exact inductionHypothesis ran
    | .column _ | .composite _ | .noop _ _ => exact inductionHypothesis ran

end Execution

namespace Batch

/-- Sibling batches of different fields. Whatever was fetched for them, each is attached to an
object as to the object as it was, if and only if none has the field in which a later one finds its
parents' keys. All orders lead to the same fields if and only if none has such a field of any
other. -/
theorem siblings_undisturbed_iff {nodes : List Node}
    (distinct : ((Node.batches nodes).map Table.fieldName).Nodup) :
    ((Node.batches nodes).Pairwise (fun t u => ¬t.Overwrites u) ↔
      ∀ fetched, fetched.map Prod.fst = Node.batches nodes → ∀ objects,
        List.Forall₂ (Attached fetched) objects (attachAll fetched objects)) ∧
    ((Node.batches nodes).Pairwise (fun t u => ¬t.Overwrites u ∧ ¬u.Overwrites t) ↔
      ∀ fetched, fetched.map Prod.fst = Node.batches nodes → ∀ fetched', fetched'.Perm fetched →
        ∀ objects, List.Forall₂ SameFields (attachAll fetched objects)
          (attachAll fetched' objects)) ∧
    ∀ {σ : Type} (fl : Sql.Flavor) (d : Driver σ) w objects s fetched s',
      Execution.fetchBatches fl d w nodes objects s = (.ok fetched, s') →
        fetched.map Prod.fst = Node.batches nodes := by
  refine ⟨⟨fun apart => ?_, fun undisturbed => ?_⟩, ⟨fun apart => ?_, fun orders => ?_⟩, ?_⟩
  · intro fetched same
    rw [forall₂_attachAll]
    rw [← same, List.pairwise_map] at apart
    exact fun o => attached_of_pairwise (fieldNames_of_tables same ▸ distinct) apart
  · rw [List.pairwise_iff_forall_sublist]
    intro t u order batch
    obtain ⟨o, disturbed⟩ := not_attached distinct order batch
    exact disturbed (forall₂_attachAll.mp (undisturbed _ (map_fst_fetchedFor u _)) o)
  · intro fetched same fetched' perm
    rw [forall₂_attachAll_both]
    rw [← same, List.pairwise_map] at apart
    exact fun o => sameFields_of_perm (fieldNames_of_tables same ▸ distinct) perm apart
  · rw [List.pairwise_iff_forall_sublist]
    intro t u order
    have apart := fieldName_ne_of_sublist distinct order
    obtain ⟨ht, hu⟩ : t ∈ Node.batches nodes ∧ u ∈ Node.batches nodes :=
      ⟨order.subset (List.mem_cons_self ..), order.subset (by simp)⟩
    have same (u : Table) fetched' (perm : fetched'.Perm (fetchedFor u (Node.batches nodes))) :=
      forall₂_attachAll_both.mp (orders _ (map_fst_fetchedFor u _) fetched' perm)
    exact ⟨not_overwrites distinct ht hu apart (same u),
      not_overwrites distinct hu ht apart.symm (same t)⟩
  · exact fun _ _ _ _ _ _ _ ran => Execution.fetchBatches_batches ran

end Batch

section Reviewed

open Batch (Attached SameFields attach attachAll)

/-- Products, and in two batches by the same number their variants and their reviews. -/
def reviewedTypes : List (ObjectType Unit) :=
  [.ofFields "Query" none queryFields,
    .ofFields "Product" (some (tableOf "products" "id")) [plainField "id" .scalar,
      { plainField "variants" (.object "Variant" true) with batch := some ⟨"productSku", "sku"⟩ },
      { plainField "reviews" (.object "Review" true) with batch := some ⟨"productSku", "sku"⟩ }],
    .ofFields "Variant" (some (tableOf "variants" "id")) [plainField "id" .scalar],
    .ofFields "Review" (some (tableOf "reviews" "id")) [plainField "id" .scalar]]

def reviewed : Schema Unit := ⟨reviewedTypes, .ofFields "Query" none queryFields⟩

theorem build_reviewed : Schema.build reviewedTypes "Query" = .ok reviewed := by rfl

/-- The variants of all products under a key of choice, and their reviews. -/
def reviewsRequest (label : Option String) : Selection :=
  ⟨"products", none, .empty, [⟨"variants", label, .empty, [.leaf "id" none]⟩,
    ⟨"reviews", none, .empty, [.leaf "id" none]⟩]⟩

theorem distinctKeys_reviewsRequest {label : Option String}
    (h : label.getD "variants" ≠ "reviews") :
    Selection.DistinctKeys reviewed reviewed.queryType [reviewsRequest label] := by
  refine .intro (by simp) (fun x hx field typeName many childType found leads known => ?_)
  obtain rfl := List.mem_singleton.mp hx
  cases found
  cases leads
  cases known
  have keys : [label.getD "variants", "reviews"].Nodup := by simpa using h
  have key : ([Selection.leaf "id" none].map Selection.responseKey).Nodup := by decide
  refine .intro keys (fun x hx field typeName many childType found leads known => ?_)
  rcases List.mem_cons.mp hx with rfl | hx
  · cases found
    cases leads
    cases known
    refine .intro key (fun x hx field typeName many childType found leads known => ?_)
    obtain rfl := List.mem_singleton.mp hx
    cases found
    cases leads
  · obtain rfl := List.mem_singleton.mp hx
    cases found
    cases leads
    cases known
    refine .intro key (fun x hx field typeName many childType found leads known => ?_)
    obtain rfl := List.mem_singleton.mp hx
    cases found
    cases leads

def variantsAs (key : String) : Table := { variantsTable with
  label := key
  fieldName := key
  location := ["Query", "products", key] }

def reviewsTable : Table := { variantsTable with
  name := .ident "reviews"
  label := "reviews"
  fieldName := "reviews"
  location := ["Query", "products", "reviews"] }

/-- The key of a batch's table, its children's key and the one requested column. -/
def keyedNodes (t : Table) : List Node :=
  [.column ⟨.name "id", "id", "id", true, none, t.location⟩,
    .column ⟨.name "productSku", "productSku", "productSku", true, none, t.location⟩,
    .column ⟨.name "id", "id", "id", false, none, t.location ++ ["id"]⟩]

def reviewedNodes (key : String) : List Node :=
  [.column ⟨.name "id", "id", "id", true, none, productsTable.location⟩,
    .table (variantsAs key) (keyedNodes (variantsAs key)),
    .table reviewsTable (keyedNodes reviewsTable)]

theorem plan_reviewed :
    reviewed.plan false () (reviewsRequest (some "sku")) =
      .ok (.table productsTable (reviewedNodes "sku")) := by rfl

/-- A variant and a review of product `D-1`. -/
def deskChildren : Groups :=
  [(.text "D-1", .list [.object [("id", .int 1), ("productSku", .text "D-1")]])]

def reviewedFetched (key : String) : List (Table × Option Groups) :=
  [(variantsAs key, some deskChildren), (reviewsTable, some deskChildren)]

def desk : Fields Value := [("id", .int 1), ("sku", .text "D-1")]

theorem siblings_undisturbed_reviewed :
    ((Node.batches (reviewedNodes "variants")).map Table.fieldName).Nodup ∧
    List.Forall₂ (Attached (reviewedFetched "variants")) [desk]
      (attachAll (reviewedFetched "variants") [desk]) ∧
    List.Forall₂ SameFields (attachAll (reviewedFetched "variants") [desk])
      (attachAll (reviewedFetched "variants").reverse [desk]) := by
  have distinct : ((Node.batches (reviewedNodes "variants")).map Table.fieldName).Nodup := by decide
  have apart : (Node.batches (reviewedNodes "variants")).Pairwise
      (fun t u => ¬t.Overwrites u ∧ ¬u.Overwrites t) := by
    refine List.pairwise_pair.mpr ⟨?_, ?_⟩ <;>
    · rintro ⟨keys, batch, same⟩
      cases batch
      revert same
      decide
  obtain ⟨undisturbed, orders, _⟩ := Batch.siblings_undisturbed_iff distinct
  exact ⟨distinct, undisturbed.mp (apart.imp And.left) _ rfl [desk],
    orders.mp apart _ rfl _ (List.reverse_perm _) [desk]⟩

/-- Variants that are asked for as `sku` take the number away by which reviews are found. -/
theorem siblings_disturbed_reviewed :
    Schema.build reviewedTypes "Query" = .ok reviewed ∧
    Selection.DistinctKeys reviewed reviewed.queryType [reviewsRequest (some "sku")] ∧
    reviewed.plan false () (reviewsRequest (some "sku")) =
      .ok (.table productsTable (reviewedNodes "sku")) ∧
    ((Node.batches (reviewedNodes "sku")).map Table.fieldName).Nodup ∧
    attach reviewsTable (some deskChildren) desk =
      .list [.object [("id", .int 1), ("productSku", .text "D-1")]] ∧
    (attachAll (reviewedFetched "sku") [desk]).map (Fields.get? · "reviews") = [some .null] ∧
    ∃ s', execute reviewed .sqlite false () shopDriver (reviewsRequest (some "sku"))
        ⟨(), false, []⟩ =
      (.ok (.list [.object [("id", .int 1),
        ("sku", .list [.object [("id", .int 1), ("productSku", .text "D-1")]]),
        ("reviews", .null)]]), s') :=
  ⟨build_reviewed, distinctKeys_reviewsRequest (by decide), plan_reviewed, by decide, by rfl,
    by rfl, _, Prod.ext rfl rfl⟩

end Reviewed

end TreeQuery
