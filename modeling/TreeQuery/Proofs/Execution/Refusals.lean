import TreeQuery.Proofs.Execution.Answered
import TreeQuery.Proofs.Execution.ValidResults
import TreeQuery.Proofs.Sql.Selectable

/-!
When a page is refused. The pages of the root's statement are looked at before anything is issued,
those of a batch when the statement of its boundary is due, and no statement with a refused page
ever reaches the database.
-/

namespace TreeQuery

open Plan (Node Table)

namespace Run

variable {σ ε ε' α β : Type} {P : Sql.Query → Prop}

/-- Whatever the run issues has a property, however the run ends. -/
structure Issues (P : Sql.Query → Prop) (x : Run σ ε α) : Prop where
  added : ∀ s, ∃ qs, (x s).2.issued = s.issued ++ qs ∧ ∀ q ∈ qs, P q

namespace Issues

theorem nothing {x : Run σ ε α} (kept : ∀ s, (x s).2.issued = s.issued) : Issues P x :=
  ⟨fun s => ⟨[], by rw [kept s, List.append_nil], by simp⟩⟩

theorem pure (a : α) : Issues P (pure a : Run σ ε α) := nothing (fun _ => rfl)

theorem fail (e : ε) : Issues P (fail e : Run σ ε α) := nothing (fun _ => rfl)

theorem hang : Issues P (hang : Run σ ε α) := nothing (fun _ => rfl)

theorem get : Issues P (get : Run σ ε (Session σ)) := nothing (fun _ => rfl)

theorem cancelIf (b : Bool) : Issues P (cancelIf b : Run σ ε Unit) := nothing (fun _ => rfl)

theorem ofExcept (f : ε' → ε) (x : Except ε' α) : Issues P (ofExcept f x : Run σ ε α) := by
  cases x with
  | error e => exact fail (f e)
  | ok a => exact pure a

/-- What follows a run adds to what the run itself has issued. -/
theorem extend {s t : Session σ} {y : Run σ ε β} (first : ∃ qs, t.issued = s.issued ++ qs ∧
    ∀ q ∈ qs, P q) (next : Issues P y) :
    ∃ qs, (y t).2.issued = s.issued ++ qs ∧ ∀ q ∈ qs, P q := by
  obtain ⟨qs, reached, own⟩ := first
  obtain ⟨more, added, later⟩ := next.added t
  refine ⟨qs ++ more, by rw [added, reached, List.append_assoc], ?_⟩
  exact List.forall_mem_append.mpr ⟨own, later⟩

theorem bind {x : Run σ ε α} {f : α → Run σ ε β} (first : Issues P x)
    (next : ∀ a, Issues P (f a)) : Issues P (x >>= f) where
  added s := by
    have before := first.added s
    rcases ran : x s with ⟨e | a, t⟩
    · rw [ran] at before
      rw [bind_of_error ran]
      exact before
    · rw [ran] at before
      rw [bind_of_ok ran]
      exact extend before (next a)

theorem ofExcept_bind {g : ε' → ε} {x : Except ε' α} {f : α → Run σ ε β}
    (next : ∀ a, x = .ok a → Issues P (f a)) : Issues P (Run.ofExcept g x >>= f) := by
  cases x with
  | error e => exact (nothing (fun _ => rfl) : Issues P (Run.fail (g e) >>= f))
  | ok a => exact next a rfl

theorem beside {w : Waiting} {x : Run σ ε α} {a : α} {f : α → Run σ ε β} (first : Issues P x)
    (next : ∀ v, Issues P (f v)) : Issues P (beside w x a f) where
  added s := by
    have before := first.added s
    rcases ran : x s with ⟨(e | _) | v, t⟩
    · simp only [Run.beside, ran]
      rwa [ran] at before
    · rw [ran] at before
      cases w with
      | inTurn =>
        simp only [Run.beside, ran]
        exact before
      | together =>
        have later := extend before (next a)
        simp only [Run.beside, ran]
        rcases also : f a t with ⟨e | b, t'⟩ <;> rwa [also] at later
    · simp only [Run.beside, ran]
      rw [ran] at before
      exact extend before (next v)

end Issues

end Run

namespace Session

variable {σ ε : Type} {P : Sql.Query → Prop} {wrap : Error → ε}

theorem checkCancelled_issues : Run.Issues P (checkCancelled wrap : Run σ ε Unit) := by
  apply Run.Issues.get.bind
  intro s
  split
  · exact .fail _
  · exact .pure _

theorem readAll_issues (deliveries : List Delivery) :
    Run.Issues P (readAll wrap deliveries : Run σ ε (List Row)) := by
  induction deliveries with
  | nil => exact checkCancelled_issues.bind (fun _ => .pure _)
  | cons delivery rest inductionHypothesis =>
    apply checkCancelled_issues.bind
    intro _
    apply (Run.Issues.cancelIf _).bind
    intro _
    apply (Run.Issues.ofExcept _ _).bind
    intro row
    exact inductionHypothesis.bind (fun _ => .pure _)

theorem query_issues {q : Sql.Query} (allowed : P q) (d : Driver σ) :
    Run.Issues P (query d wrap q) := by
  have asked : Run.Issues P (ask d q : Run σ ε Answer) := by
    refine ⟨fun s => ⟨[q], rfl, ?_⟩⟩
    exact List.forall_mem_singleton.mpr allowed
  apply checkCancelled_issues.bind
  intro _
  apply asked.bind
  intro answer
  cases answer with
  | failed e cancels => exact (Run.Issues.cancelIf _).bind (fun _ => .fail _)
  | hung => exact (Run.Issues.cancelIf _).bind (fun _ => .hang)
  | rows cancels deliveries => exact (Run.Issues.cancelIf _).bind (fun _ => readAll_issues _)

end Session

namespace Execution

variable {σ : Type} {fl : Sql.Flavor} {d : Driver σ} {P : Sql.Query → Prop}

section Issues

/-- What is compiled of a table may be issued. -/
def Allows (fl : Sql.Flavor) (P : Sql.Query → Prop) (t : Table) (children : List Node) : Prop :=
  ∀ scope q, Sql.compile fl (.table t children) scope = .ok q → P q

theorem fetch_issues {t : Table} {children : List Node} (allows : Allows fl P t children)
    (scope : Option (List Value)) : Run.Issues P (fetch fl d (.table t children) scope) := by
  apply Run.Issues.ofExcept_bind
  intro q compiled
  apply (Run.Issues.ofExcept _ _).bind
  intro shape
  apply (Session.query_issues (allows scope q compiled) d).bind
  intro rows
  exact .ofExcept _ _

theorem fetchGroups_issues {t : Table} {children : List Node} (allows : Allows fl P t children)
    (scope : List Key) : Run.Issues P (fetchGroups fl d t children scope) := by
  apply (fetch_issues allows _).bind
  intro hydrated
  apply (Run.Issues.ofExcept _ _).bind
  intro keys
  apply (Run.Issues.ofExcept _ _).bind
  intro items
  exact .ofExcept _ _

theorem onValues_issues {f : List (Fields Value) → Task σ (List (Fields Value))}
    (each : ∀ objects, Run.Issues P (f objects)) (values : List Value) :
    Run.Issues P (onValues f values) := (each _).bind (fun _ => .pure _)

/-- A batch boundary allows what its statement is compiled to. -/
def BatchAllows (fl : Sql.Flavor) (P : Sql.Query → Prop) (t : Table) (children : List Node) :
    Prop := t.isBatch → Allows fl P t children

mutual

theorem complete_issues : (n : Node) → n.Everywhere (BatchAllows fl P) →
    (objects : List (Fields Value)) → Run.Issues P (complete fl d n objects)
  | .table _ children, allows, objects =>
    (fetchBatches_issues _ children allows.2 objects).bind
      (fun _ => runJoined_issues _ [] children allows.2 _)
  | .column _, _, _ | .composite _, _, _ | .noop _ _, _, _ => .pure _

theorem fetchBatches_issues (w : Run.Waiting) : (nodes : List Node) →
    Node.EverywhereIn (BatchAllows fl P) nodes → (objects : List (Fields Value)) →
    Run.Issues P (fetchBatches fl d w nodes objects)
  | [], _, _ => .pure _
  | .table t children :: r, allows, objects => by
    rw [fetchBatches]
    split
    · rename_i batch
      refine Run.Issues.beside ?_ (fun groups => ?_)
      · split
        · exact .pure _
        apply (fetchGroups_issues (allows.1.1 batch) _).bind
        intro groups
        split
        · have below := onValues_issues (complete_issues (.table t children) allows.1)
          exact ((below _).bind (fun _ => .pure _)).bind (fun _ => .pure _)
        · exact .pure _
      · exact (fetchBatches_issues w r allows.2 objects).bind (fun _ => .pure _)
    · exact fetchBatches_issues w r allows.2 objects
  | .column _ :: r, allows, objects | .composite _ :: r, allows, objects
  | .noop _ _ :: r, allows, objects => fetchBatches_issues w r allows.2 objects

theorem runJoined_issues (w : Run.Waiting) (seen : List String) : (nodes : List Node) →
    Node.EverywhereIn (BatchAllows fl P) nodes → (objects : List (Fields Value)) →
    Run.Issues P (runJoined fl d w seen nodes objects)
  | [], _, _ => .pure _
  | .table t children :: r, allows, objects => by
    rw [runJoined]
    split
    · exact runJoined_issues w seen r allows.2 objects
    · refine Run.Issues.beside ?_ (fun objects => runJoined_issues w _ r allows.2 objects)
      exact (onValues_issues (complete_issues (.table t children) allows.1) _).bind
        (fun _ => .pure _)
  | .column _ :: r, allows, objects | .composite _ :: r, allows, objects
  | .noop _ _ :: r, allows, objects => runJoined_issues w seen r allows.2 objects

end

/-- The statement of one of some tables, for whatever keys. -/
def StatementOf (fl : Sql.Flavor) (roots : List (Table × List Node)) (q : Sql.Query) : Prop :=
  ∃ b ∈ roots, ∃ scope, Sql.compile fl (.table b.1 b.2) scope = .ok q

/-- A run issues the statements of its plan and no others. -/
theorem run_issues (root : Node) :
    Run.Issues (StatementOf fl root.statementRoots) (run fl d root) := by
  cases root with
  | table t children =>
    have allows (b : Table × List Node) (starts : b ∈ (Node.table t children).statementRoots) :
        Allows fl (StatementOf fl (Node.table t children).statementRoots) b.1 b.2 :=
      fun scope q compiled => ⟨b, starts, scope, compiled⟩
    have below : Node.EverywhereIn
        (BatchAllows fl (StatementOf fl (Node.table t children).statementRoots)) children :=
      Node.everywhereIn_of_boundariesIn children
        (fun b boundary => allows b (List.mem_cons_of_mem _ boundary))
    have own := allows (t, children) (List.mem_cons_self ..)
    apply (fetch_issues own none).bind
    intro items
    apply (Run.Issues.ofExcept _ _).bind
    intro value
    split
    · exact (onValues_issues (complete_issues (.table t children) ⟨fun _ => own, below⟩) _).bind
        (fun _ => .pure _)
    · exact .pure _
  | column _ | composite _ | noop _ _ => exact .pure _

end Issues

section Refused

variable {s s' : Session σ} {t : Table} {children : List Node}

/-- If the statement of the root cannot be compiled, that is how the run ends, before it begins. -/
theorem run_of_uncompiled {e : Sql.SqlError}
    (uncompiled : Sql.compile fl (.table t children) none = .error e) (d : Driver σ)
    (s : Session σ) : run fl d (.table t children) s = (.error (.failed (.sql e)), s) := by
  have failed : (Run.ofExcept .sql (Sql.compile fl (.table t children) none) :
      Task σ Sql.Query) s = (.error (.failed (.sql e)), s) := by
    rw [uncompiled]
    rfl
  exact Run.bind_of_error (Run.bind_of_error failed _) _

/-- Batches of which one is refused are not fetched for objects with a key for it. -/
theorem fetchBatches_refuses {w : Run.Waiting} {nodes : List Node} {objects : List (Fields Value)}
    (member : .table t children ∈ nodes) (batch : t.isBatch)
    (refused : ∃ u ∈ (Node.table t children).statementTables, u.Refused fl)
    (keyed : Batch.scope t objects ≠ []) (fetched : Fetched) :
    fetchBatches fl d w nodes objects s ≠ (.ok fetched, s') := by
  intro ran
  induction nodes generalizing s s' fetched with
  | nil => cases member
  | cons n nodes inductionHypothesis =>
    match n with
    | .table u below =>
      rw [fetchBatches] at ran
      split at ran
      · obtain ⟨groups, s₁, own, ran⟩ := Run.beside_ok.mp ran
        obtain ⟨rest, s₂, later, _⟩ := Run.bind_ok.mp ran
        cases member with
        | tail _ member => exact inductionHypothesis member rest later
        | head =>
          rw [if_neg (mt List.isEmpty_iff.mp keyed)] at own
          obtain ⟨made, s₃, got, _⟩ := Run.bind_ok.mp own
          obtain ⟨keys, matched⟩ := Option.isSome_iff_exists.mp (t.isBatch_eq ▸ batch)
          obtain ⟨hydrated, items, fetched, _⟩ := fetchGroups_ok matched got
          obtain ⟨q, compiled, _⟩ := fetch_issued fetched
          obtain ⟨v, among, refused⟩ := refused
          exact Sql.compile_refuses compiled v among refused
      · rename_i single
        cases member with
        | head => exact single batch
        | tail _ member => exact inductionHypothesis member fetched ran
    | .column _ | .composite _ | .noop _ _ =>
      exact inductionHypothesis (by simpa using member) fetched ran

end Refused

end Execution

section Request

open Execution (BatchedRun)

variable {Ctx σ : Type} {schema : Schema Ctx} {minify : Bool} {cx : Ctx} {x : Selection}

theorem execute_issues {root : Node} (planned : schema.plan minify cx x = .ok root)
    (fl : Sql.Flavor) (d : Driver σ) (s : Session σ) :
    ∃ qs, (execute schema fl minify cx d x s).2.issued = s.issued ++ qs ∧
      ∀ q ∈ qs, Execution.StatementOf fl root.statementRoots q := by
  have issues : Run.Issues (Execution.StatementOf fl root.statementRoots)
      (Execution.ofSelection schema fl minify cx d x) := by
    apply Run.Issues.ofExcept_bind
    intro root' replanned
    cases planned.symm.trans replanned
    apply (Run.Issues.ofExcept _ _).bind
    intro _
    exact Execution.run_issues root
  have same : (execute schema fl minify cx d x s).2 =
      (Execution.ofSelection schema fl minify cx d x s).2 := by
    rw [execute]
    split <;> rename_i ran <;> rw [ran]
  rw [same]
  exact issues.added s

/-- If a page of the root's statement is refused, the request fails in the same way whatever the
database holds, and nothing is issued. -/
theorem execute_of_refused {t : Table} {children : List Node}
    (planned : schema.plan minify cx x = .ok (.table t children)) {fl : Sql.Flavor}
    (refused : ∃ u ∈ (Node.table t children).statementTables, u.Refused fl) :
    ∃ e, ∀ {σ : Type} (d : Driver σ) (s : Session σ),
      execute schema fl minify cx d x s = (.error e, s) := by
  obtain ⟨e, uncompiled⟩ : ∃ e, Sql.compile fl (.table t children) none = .error e := by
    obtain ⟨u, among, refused⟩ := refused
    cases compiled : Sql.compile fl (.table t children) none with
    | error e => exact ⟨e, rfl⟩
    | ok q => exact (Sql.compile_refuses compiled u among refused).elim
  have begun {σ : Type} (s : Session σ) : (Run.ofExcept .plan (schema.plan minify cx x) :
      Execution.Task σ Node) s = (.ok (.table t children), s) := by
    rw [planned]
    rfl
  cases checked : Shape.checkPlan (.table t children) with
  | error shapeless =>
    refine ⟨(RunError.shape shapeless).toError, fun d s => ?_⟩
    have failed : Execution.ofSelection schema fl minify cx d x s =
        (.error (.failed (.shape shapeless)), s) := by
      rw [Execution.ofSelection, Run.bind_of_ok (begun s), checked]
      rfl
    rw [execute, failed]
  | ok shaped =>
    refine ⟨(RunError.sql e).toError, fun d s => ?_⟩
    have failed : Execution.ofSelection schema fl minify cx d x s =
        (.error (.failed (.sql e)), s) := by
      rw [Execution.ofSelection, Run.bind_of_ok (begun s), checked]
      exact Execution.run_of_uncompiled uncompiled d s
    rw [execute, failed]

/-- How a request is run whose plan may have refused pages. -/
structure RefusedPages (schema : Schema Ctx) (minify : Bool) (cx : Ctx) (x : Selection)
    (root : Node) (fl : Sql.Flavor) : Prop where
  /-- A refused page of the root's statement ends the request before anything is issued, and in the
  same way whatever the database holds. -/
  first : (∃ u ∈ root.statementTables, u.Refused fl) →
    ∃ e, ∀ {σ : Type} (d : Driver σ) (s : Session σ),
      execute schema fl minify cx d x s = (.error e, s)
  /-- However the request ends, no statement with a refused page has been issued. -/
  issued : ∀ {σ : Type} (d : Driver σ) (s : Session σ),
    ∃ qs, (execute schema fl minify cx d x s).2.issued = s.issued ++ qs ∧
      ∀ q ∈ qs, ∃ b ∈ root.statementRoots,
        (∃ scope, Sql.compile fl (.table b.1 b.2) scope = .ok q) ∧
        ∀ u ∈ (Node.table b.1 b.2).statementTables, ¬u.Refused fl
  /-- Batches cannot be fetched for objects with a key for one whose statement has such a page. -/
  fetched : ∀ {σ : Type} (d : Driver σ) w nodes objects s t children, .table t children ∈ nodes →
    t.isBatch → (∃ u ∈ (Node.table t children).statementTables, u.Refused fl) →
    Batch.scope t objects ≠ [] →
    ∀ fetched s', Execution.fetchBatches fl d w nodes objects s ≠ (.ok fetched, s')
  /-- If the keys on each object differ, a run that succeeds has come to the boundaries of such
  statements without a key. -/
  passed : Selection.DistinctKeys schema schema.queryType [x] →
    ∀ {σ : Type} (d : Driver σ) s v s' t children, root = .table t children →
      execute schema fl minify cx d x s = (.ok v, s') →
      ∃ q log, BatchedRun fl d t children s q log s' ∧
        ∀ b ∈ log, (∃ u ∈ (Node.table b.table b.children).statementTables, u.Refused fl) →
          ∀ o ∈ b.parents, Batch.parentKeys b.table o = []

/-- Pages are looked at when the statement that takes them is compiled: those of the root before
anything runs, those of a batch once some object has a key for it. -/
theorem execute_refuses {root : Node} (planned : schema.plan minify cx x = .ok root)
    (fl : Sql.Flavor) : RefusedPages schema minify cx x root fl where
  first refused := by
    cases root with
    | table t children => exact execute_of_refused planned refused
    | column _ | composite _ | noop _ _ =>
      obtain ⟨u, among, _⟩ := refused
      cases among
  issued d s := by
    obtain ⟨qs, added, issued⟩ := execute_issues planned fl d s
    refine ⟨qs, added, fun q member => ?_⟩
    obtain ⟨b, starts, scope, compiled⟩ := issued q member
    exact ⟨b, starts, ⟨scope, compiled⟩, Sql.compile_refuses compiled⟩
  fetched _ _ _ _ _ _ _ member batch refused keyed fetched _ :=
    Execution.fetchBatches_refuses member batch refused keyed fetched
  passed distinct σ d s v s' t children table ran := by
    obtain ⟨root', replanned, _, ran⟩ := execute_ok ran
    cases planned.symm.trans replanned
    subst table
    obtain ⟨q, log, batched⟩ := Execution.run_batched (Plan.plan_tablesApart distinct planned) ran
    refine ⟨q, log, batched, fun b visited refused => ?_⟩
    have disciplined := batched.disciplined b visited
    by_contra keyed
    push Not at keyed
    obtain ⟨q, issued⟩ := List.exists_mem_of_ne_nil _ (disciplined.needed.mpr keyed)
    obtain ⟨u, among, refused⟩ := refused
    exact Sql.compile_refuses (disciplined.limited q issued) u among refused

end Request

section Feeds

/-- Products, and their variants a page at a time in one batch. -/
def feedTypes : List (ObjectType Unit) :=
  [.ofFields "Query" none queryFields,
    .ofFields "Product" (some (tableOf "products" "id")) [plainField "id" .scalar,
      plainField "name" .scalar,
      { plainField "variants" (.object "Variant" true) with
        batch := some ⟨"productSku", "sku"⟩
        sortKey := some (fun _ _ => [⟨"id", "id", .ascending, .int⟩])
        paginate := true }],
    .ofFields "Variant" (some (tableOf "variants" "id")) [plainField "id" .scalar]]

def feeds : Schema Unit := ⟨feedTypes, .ofFields "Query" none queryFields⟩

theorem build_feeds : Schema.build feedTypes "Query" = .ok feeds := by rfl

/-- The variants of all products, from a cursor that is none. -/
def feedRequest : Selection :=
  ⟨"products", none, .empty, [.leaf "name" none,
    ⟨"variants", none, ⟨[("after", .text "not a cursor")]⟩,
      [⟨"edges", none, .empty, [⟨"node", none, .empty, [.leaf "id" none]⟩]⟩]⟩]⟩

def feedTable : Table := { variantsTable with
  arguments := ⟨[("after", .text "not a cursor")]⟩
  sortKey := some [⟨"id", "id", .ascending, .int⟩]
  paginate := true }

def feedNodes : List Node :=
  [.column ⟨.name "id", "id", "id", true, none, variantsTable.location⟩,
    .column ⟨.name "id", "id", "id", false, none, variantsTable.location⟩,
    .column ⟨.name "productSku", "productSku", "productSku", true, none, variantsTable.location⟩,
    .column ⟨.name "id", "id", "id", false, none, variantsTable.location ++ ["id"]⟩]

def feedRoot : Node := .table productsTable
  [.column ⟨.name "id", "id", "id", true, none, productsTable.location⟩,
    .column ⟨.name "name", "name", "name", false, none, productsTable.location ++ ["name"]⟩,
    .table feedTable feedNodes]

theorem plan_feedRequest : feeds.plan false () feedRequest = .ok feedRoot := by rfl

theorem refused_feedTable (fl : Sql.Flavor) : feedTable.Refused fl := by
  refine ⟨rfl, ?_⟩
  rintro ⟨p, asked, _⟩
  cases asked

/-- A product without a number of its own. -/
def unnumberedDriver : Driver Unit where
  answer _ s := (.rows false [⟨.ok ⟨[("id", .int 1), ("name", .text "Desk"), ("sku", .null)]⟩,
    false⟩], s)

/-- The cursor of the variants is refused, but the products are asked for. If they have numbers, the
request fails then, and if they have none it is answered. -/
theorem refused_page_runs_feeds :
    Schema.build feedTypes "Query" = .ok feeds ∧
    feeds.plan false () feedRequest = .ok feedRoot ∧
    (feedTable, feedNodes) ∈ feedRoot.statementRoots ∧ feedTable.Refused .postgresql ∧
    (∃ e s', execute feeds .postgresql false () shopDriver feedRequest ⟨(), false, []⟩ =
      (.error e, s') ∧ s'.issued.length = 1) ∧
    ∃ s', execute feeds .postgresql false () unnumberedDriver feedRequest ⟨(), false, []⟩ =
      (.ok (.list [.object [("id", .int 1), ("name", .text "Desk"), ("sku", .null),
        ("variants", .emptyConnection)]]), s') ∧ s'.issued.length = 1 := by
  refine ⟨build_feeds, plan_feedRequest, ?_, refused_feedTable _, ?_, ?_⟩
  · exact List.mem_cons_of_mem _ (List.mem_singleton_self _)
  · exact ⟨_, _, Prod.ext rfl rfl, rfl⟩
  · exact ⟨_, Prod.ext rfl rfl, rfl⟩

/-- The same cursor on the products themselves is refused before anything is issued. -/
def badCursor : Selection :=
  { firstProduct with arguments := ⟨[("after", .text "not a cursor")]⟩ }

theorem execute_refuses_products : ∃ root, pagedShop.plan false () badCursor = .ok root ∧
    RefusedPages pagedShop false () badCursor root .postgresql ∧
    ∃ e, ∀ {σ : Type} (d : Driver σ) (s : Session σ),
      execute pagedShop .postgresql false () d badCursor s = (.error e, s) := by
  have planned : pagedShop.plan false () badCursor = .ok (.table
      { pagedTable with arguments := ⟨[("after", .text "not a cursor")]⟩ } pagedNodes) := by rfl
  have pages := execute_refuses planned .postgresql
  refine ⟨_, planned, pages, pages.first ⟨_, List.mem_cons_self .., rfl, ?_⟩⟩
  rintro ⟨p, asked, _⟩
  cases asked

end Feeds

end TreeQuery
