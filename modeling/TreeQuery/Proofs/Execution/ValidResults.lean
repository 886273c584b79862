import TreeQuery.Execution
import TreeQuery.Proofs.Connection.Conversion
import TreeQuery.Proofs.Plan.Boundaries
import TreeQuery.Proofs.Sql.Labels
import TreeQuery.Proofs.Sql.SelectList

/-!
No run complains about its result while the database answers every statement with the columns that
the statement selects. What can still go wrong is the request, the plan, or the database.
-/

namespace TreeQuery

/-- Errors that say that a result is invalid. -/
def Error.OfResult (e : Error) : Prop := e.isA .invalidResult = true

@[simp] theorem Error.ofResult_of (c : Cause) :
    (Error.of c).OfResult ↔ c.belongsTo .invalidResult = true := by
  simp [OfResult, isA, of, causes]

theorem Plan.PagingError.not_ofResult (e : Plan.PagingError) : ¬e.toError.OfResult := by
  cases e with
  | argument e => cases e <;> simp [toError, ArgumentError.toError, Error.invalidArgument,
      Cause.belongsTo]
  | cursor l e => simp [toError, CursorError.toError, Error.OfResult, Error.isA, Error.context,
      Error.note, Error.invalidCursor, Error.of, Error.causes, Cause.belongsTo]
  | _ => simp [toError, refused, Error.invalidConfiguration, Error.invalidCursor, Cause.belongsTo]

theorem Plan.PlanError.not_ofResult (e : Plan.PlanError) : ¬e.toError.OfResult := by
  simp [toError, Error.invalidConfiguration, Cause.belongsTo]

theorem Shape.ShapeError.not_ofResult (e : Shape.ShapeError) : ¬e.toError.OfResult := by
  simp [toError, Error.invalidConfiguration, Cause.belongsTo]

theorem Sql.SqlError.not_ofResult (e : Sql.SqlError) : ¬e.toError.OfResult := by
  cases e with
  | paging e => exact e.not_ofResult
  | _ => simp [toError, about, junctionOf, ArgumentError.toError, Error.invalidConfiguration,
      Error.invalidArgument, Error.unsupportedFeature, Cause.belongsTo]

theorem Error.cancelled_not_ofResult : ¬Error.cancelled.OfResult := by
  simp [Error.cancelled, Cause.belongsTo]

/-- Of the errors of a connection only those that are not about paging. -/
theorem ConnectionError.avoids_ofResult {α : Type} {x : Except ConnectionError α}
    (h : Avoids Connection.IsResult x) :
    Avoids (fun e => (RunError.connection e).toError.OfResult) x := by
  intro e he
  cases e with
  | paging e => exact e.not_ofResult
  | result e => exact absurd trivial (h _ he)

/-- An answer in which every row has some columns, and no error speaks of a result. -/
def Answer.Carries (labels : List String) : Answer → Prop
  | .failed e _ => ¬e.OfResult
  | .hung => True
  | .rows _ deliveries => ∀ x ∈ deliveries, match x.row with
    | .ok r => labels ⊆ r.columns
    | .error e => ¬e.OfResult

/-- Statements of some tables are answered with the columns that their texts select. -/
def Answered (fl : Sql.Flavor) (roots : List (Plan.Table × List Plan.Node)) (q : Sql.Query)
    (a : Answer) : Prop :=
  ∀ b ∈ roots, ∀ scope st items, Sql.statement fl (.table b.1 b.2) scope = .ok st →
    st.query fl = q → Sql.Selects q.sql items →
    items.map Prod.fst = (st.selection fl).map Prod.fst → a.Carries (items.map Prod.snd)

/-- A state of the database is good only if all answers up to it were right. -/
def Driver.Remembers {σ : Type} (d : Driver σ) (good : σ → Prop)
    (right : Sql.Query → Answer → Prop) : Prop :=
  ∀ q s, good (d.answer q s).2 → good s ∧ right q (d.answer q s).1

abbrev Sound {σ α : Type} (good : σ → Prop) (x : Execution.Task σ α) : Prop :=
  Run.Sound good (fun e : RunError => e.toError.OfResult) x

namespace Session

open Hydration (Carry)

variable {σ : Type} {d : Driver σ} {good : σ → Prop} {right : Sql.Query → Answer → Prop}
variable {q : Sql.Query} {labels : List String}

theorem checkCancelled_sound {bad : RunError → Prop} (cancelled : ¬bad (.session .cancelled)) :
    Run.Sound good bad (checkCancelled .session) := by
  refine Run.Sound.bind .get (fun s => ?_)
  split
  · exact .fail cancelled
  · exact .pure _

theorem readAll_sound {bad : RunError → Prop} {deliveries : List Delivery}
    (cancelled : ¬bad (.session .cancelled))
    (rows : ∀ x ∈ deliveries, Avoids (fun e => bad (.session e)) x.row) :
    Run.Sound good bad (readAll .session deliveries) := by
  induction deliveries with
  | nil => exact (checkCancelled_sound cancelled).bind (fun _ => .pure _)
  | cons x r ih =>
    obtain ⟨here, later⟩ := List.forall_mem_cons.mp rows
    refine (checkCancelled_sound cancelled).bind (fun _ => (Run.Sound.cancelIf _).bind (fun _ => ?_))
    exact (Run.Sound.ofExcept here).bind (fun _ => (ih later).bind (fun _ => .pure _))

theorem readAll_carry {deliveries : List Delivery} {rows : List Row} {s s' : Session σ}
    (h : (Answer.rows false deliveries).Carries labels)
    (read : readAll RunError.session deliveries s = (.ok rows, s')) : Carry rows labels := by
  induction deliveries generalizing rows s s' with
  | nil =>
    obtain ⟨_, _, _, read⟩ := Run.bind_ok.mp read
    obtain ⟨rfl, _⟩ := Run.pure_ok.mp read
    simp [Carry]
  | cons x r ih =>
    obtain ⟨here, later⟩ := List.forall_mem_cons.mp h
    obtain ⟨_, _, _, read⟩ := Run.bind_ok.mp read
    obtain ⟨_, _, _, read⟩ := Run.bind_ok.mp read
    obtain ⟨row, _, hx, read⟩ := Run.bind_ok.mp read
    obtain ⟨rest, _, hr, read⟩ := Run.bind_ok.mp read
    obtain ⟨rfl, _⟩ := Run.pure_ok.mp read
    obtain ⟨hx, _⟩ := Run.ofExcept_ok.mp hx
    rw [hx] at here
    exact List.forall_mem_cons.mpr ⟨here, ih later hr⟩

theorem ask_sound {bad : RunError → Prop} (remembers : d.Remembers good right) :
    Run.Sound good bad (ask d q) :=
  ⟨fun s h => (remembers q s.driver h).1, nofun⟩

theorem ask_right {ε : Type} {a : Answer} {s s' : Session σ} (remembers : d.Remembers good right)
    (asked : (ask d q : Run σ ε Answer) s = (.ok a, s')) (last : good s'.driver) : right q a := by
  cases asked
  exact (remembers q s.driver last).2

/-- An answer can only bring the errors of the database. -/
theorem receive_avoids {bad : RunError → Prop} (foreign : ∀ e, ¬bad (.session e)) (a : Answer) :
    Run.Sound good bad (receive .session a) := by
  cases a with
  | failed e cancels => exact (Run.Sound.cancelIf _).bind (fun _ => .fail (foreign e))
  | hung => exact (Run.Sound.cancelIf _).bind (fun _ => .hang)
  | rows cancels deliveries =>
    exact (Run.Sound.cancelIf _).bind
      (fun _ => readAll_sound (foreign .cancelled) (fun _ _ e _ => foreign e))

theorem receive_keeps (a : Answer) : Run.Keeps good (receive RunError.session a) :=
  receive_avoids (fun _ => id) a

theorem receive_sound {a : Answer} (h : a.Carries labels) : Sound good (receive .session a) := by
  cases a with
  | failed e cancels => exact (Run.Sound.cancelIf _).bind (fun _ => .fail h)
  | hung => exact (Run.Sound.cancelIf _).bind (fun _ => .hang)
  | rows cancels deliveries =>
    refine (Run.Sound.cancelIf _).bind (fun _ => readAll_sound Error.cancelled_not_ofResult ?_)
    intro x hx e he
    have row := h x hx
    rw [he] at row
    exact row

theorem receive_carry {a : Answer} {rows : List Row} {s s' : Session σ} (h : a.Carries labels)
    (received : receive RunError.session a s = (.ok rows, s')) : Carry rows labels := by
  cases a with
  | failed e cancels =>
    obtain ⟨_, _, _, failed⟩ := Run.bind_ok.mp received
    cases failed
  | hung =>
    obtain ⟨_, _, _, hung⟩ := Run.bind_ok.mp received
    cases hung
  | rows cancels deliveries =>
    obtain ⟨_, _, _, read⟩ := Run.bind_ok.mp received
    exact readAll_carry h read

theorem query_sound (remembers : d.Remembers good right)
    (carries : ∀ a, right q a → a.Carries labels) : Sound good (query d .session q) := by
  refine (checkCancelled_sound Error.cancelled_not_ofResult).bind (fun _ => ?_)
  exact (ask_sound remembers).bind_of_good receive_keeps
    (fun s a s' asked last => receive_sound (carries a (ask_right remembers asked last)))

theorem query_carry {rows : List Row} {s s' : Session σ} (remembers : d.Remembers good right)
    (carries : ∀ a, right q a → a.Carries labels)
    (queried : query d RunError.session q s = (.ok rows, s')) (last : good s'.driver) :
    Carry rows labels := by
  obtain ⟨_, _, _, queried⟩ := Run.bind_ok.mp queried
  obtain ⟨a, t, asked, received⟩ := Run.bind_ok.mp queried
  have answered : good t.driver := (receive_keeps a).started t (by rw [received]; exact last)
  exact receive_carry (carries a (ask_right remembers asked answered)) received

end Session

namespace Execution

open Plan (Node Table)

variable {σ : Type} {fl : Sql.Flavor} {d : Driver σ} {good : σ → Prop}
variable {roots : List (Table × List Node)}

section Fetch

variable {t : Table} {children : List Node} {shape : Shape}

theorem shapeOf_ok {n : Node} (shaped : Shape.ofNode "" n = .ok shape) : shapeOf n = .ok shape := by
  rw [shapeOf, shaped]
  rfl

/-- What a table's statement selects is enough to hydrate its rows. -/
theorem carries_labels (coherent : (Node.table t children).Everywhere Table.Coherent)
    (shaped : Shape.ofNode "" (.table t children) = .ok shape) (root : (t, children) ∈ roots)
    {scope : Option (List Value)} {q : Sql.Query}
    (compiled : Sql.compile fl (.table t children) scope = .ok q) (a : Answer)
    (answered : Answered fl roots q a) : a.Carries shape.labels := by
  obtain ⟨st, stated, written⟩ := map_eq_ok.mp compiled
  have labels := Shape.labels_subset_outputs coherent shaped stated
  have selects : Sql.Selects q.sql (st.selection fl) := by
    rw [← written]
    exact Sql.Statement.selects coherent.1.related stated
  have carries := answered _ root scope st _ stated written selects rfl
  rw [Sql.Statement.map_snd_selection] at carries
  cases a with
  | failed e cancels => exact carries
  | hung => trivial
  | rows cancels deliveries =>
    intro x hx
    have row := carries x hx
    split <;> rename_i hr <;> rw [hr] at row
    · exact List.Subset.trans labels row
    · exact row

variable (coherent : (Node.table t children).Everywhere Table.Coherent)
variable (shaped : Shape.ofNode "" (.table t children) = .ok shape)
variable (root : (t, children) ∈ roots) (remembers : d.Remembers good (Answered fl roots))

include coherent shaped root remembers

theorem fetch_sound (scope : Option (List Value)) :
    Sound good (fetch fl d (.table t children) scope) := by
  refine Run.Sound.ofExcept_bind (fun e _ => e.not_ofResult) (fun q compiled => ?_)
  have carries := carries_labels coherent shaped root compiled
  rw [shapeOf_ok shaped]
  refine (Session.query_sound remembers carries).bind_of_good (fun _ => .ofExcept (fun _ _ => id))
    (fun _ rows _ hr last => ?_)
  rw [Hydration.objects_eq shape (Session.query_carry remembers carries hr last)]
  exact .pure _

theorem fetch_ok {scope : Option (List Value)} {items : List Value} {s s' : Session σ}
    (h : fetch fl d (.table t children) scope s = (.ok items, s')) (last : good s'.driver) :
    ∃ rows, items = Hydration.values shape rows := by
  obtain ⟨q, _, hq, h⟩ := Run.bind_ok.mp h
  obtain ⟨compiled, _⟩ := Run.ofExcept_ok.mp hq
  have carries := carries_labels coherent shaped root compiled
  obtain ⟨_, _, hs, h⟩ := Run.bind_ok.mp h
  rw [shapeOf_ok shaped] at hs
  obtain ⟨rfl, _⟩ := Run.pure_ok.mp hs
  obtain ⟨rows, _, hr, h⟩ := Run.bind_ok.mp h
  obtain ⟨hydrated, rfl⟩ := Run.ofExcept_ok.mp h
  rw [Hydration.objects_eq shape (Session.query_carry remembers carries hr last)] at hydrated
  exact ⟨rows, (Except.ok.inj hydrated).symm⟩

end Fetch

/-- Groups fail only where their pages do. -/
theorem groupValues_avoids {bad : ConnectionError → Prop} {t : Table}
    (paged : ∀ items, TreeQuery.Avoids bad (Connection.ofItems t items)) (g : Grouping Key Value) :
    TreeQuery.Avoids bad (groupValues t g) := by
  induction g with
  | nil => exact Avoids.ok _
  | cons p r ih =>
    have value : TreeQuery.Avoids bad (groupValue t p.2) := by
      unfold groupValue
      split
      · exact paged p.2
      · exact Avoids.ok _
    exact value.bind (fun _ _ => ih.bind (fun _ _ => Avoids.ok _))

theorem requireKeys_avoids (t : Table) :
    TreeQuery.Avoids (fun e => (id e : RunError).toError.OfResult) (requireKeys t) := by
  rw [requireKeys]
  split
  · exact Avoids.ok _
  · exact Avoids.error (by simp [RunError.toError, Error.invalidConfiguration, Cause.belongsTo])

theorem fetchGroups_sound {t : Table} {children : List Node} {shape : Shape}
    (coherent : (Node.table t children).Everywhere Table.Coherent)
    (apart : (Node.table t children).Everywhere Table.JoinsApart)
    (shaped : Shape.ofNode "" (.table t children) = .ok shape) (root : (t, children) ∈ roots)
    (remembers : d.Remembers good (Answered fl roots)) (scope : List Key) :
    Sound good (fetchGroups fl d t children scope) := by
  refine (fetch_sound coherent shaped root remembers _).bind_of_good (fun _ => ?_)
    (fun _ items _ fetched last => ?_)
  · apply Run.Sound.bind (.ofExcept (fun _ _ => id))
    exact fun _ => Run.Sound.bind (.ofExcept (fun _ _ => id)) (fun _ => .ofExcept (fun _ _ => id))
  refine Run.Sound.bind (.ofExcept (requireKeys_avoids t)) (fun keys => ?_)
  obtain ⟨rows, rfl⟩ := fetch_ok coherent shaped root remembers fetched last
  have fits := Shape.fitsIn_values (.table t children) apart shaped rows
  have converted : Avoids Connection.IsResult
      ((Hydration.values shape rows).mapM (Connection.convertChildren children)) :=
    Avoids.mapM (fun v hv => Connection.convertChildren_avoids children apart.1 apart.2 (fits v hv))
  refine Run.Sound.bind (.ofExcept (ConnectionError.avoids_ofResult converted)) (fun _ => ?_)
  have paged := groupValues_avoids (Connection.ofItems_avoids t)
  exact .ofExcept (ConnectionError.avoids_ofResult (paged _))

section Levels

variable {bad : RunError → Prop}

theorem onValues_sound {f : List (Fields Value) → Task σ (List (Fields Value))}
    (hf : ∀ objects, Run.Sound good bad (f objects)) (values : List Value) :
    Run.Sound good bad (onValues f values) := (hf _).bind (fun _ => .pure _)

/-- A table that is a batch is fetched without bad errors, as there are keys whenever it is. -/
def Fetches (fl : Sql.Flavor) (d : Driver σ) (good : σ → Prop) (bad : RunError → Prop) (t : Table)
    (children : List Node) : Prop :=
  t.isBatch → ∀ scope, scope ≠ [] → Run.Sound good bad (fetchGroups fl d t children scope)

mutual

/-- Nothing but the statements of batch boundaries can fail on the way down. -/
theorem complete_sound : (n : Node) → n.Everywhere (Fetches fl d good bad) →
    (objects : List (Fields Value)) → Run.Sound good bad (complete fl d n objects)
  | .table _ children, h, objects =>
    (fetchBatches_sound _ children h.2 objects).bind (fun _ => runJoined_sound _ [] children h.2 _)
  | .column _, _, _ | .composite _, _, _ | .noop _ _, _, _ => .pure _

theorem fetchBatches_sound (w : Run.Waiting) : (nodes : List Node) →
    Node.EverywhereIn (Fetches fl d good bad) nodes → (objects : List (Fields Value)) →
    Run.Sound good bad (fetchBatches fl d w nodes objects)
  | [], _, _ => .pure _
  | .table t children :: r, h, objects => by
    rw [fetchBatches]
    split
    · rename_i batch
      refine Run.Sound.beside ?_ (fun groups => ?_)
      · split
        · exact .pure _
        · rename_i keyed
          refine (h.1.1 batch _ (mt List.isEmpty_iff.mpr keyed)).bind (fun groups => ?_)
          split
          · have below := onValues_sound (complete_sound (.table t children) h.1)
            refine Run.Sound.bind (Run.Sound.bind (below _) ?_) ?_
            · exact fun _ => .pure _
            · exact fun _ => .pure _
          · exact .pure _
      · exact (fetchBatches_sound w r h.2 objects).bind (fun _ => .pure _)
    · exact fetchBatches_sound w r h.2 objects
  | .column _ :: r, h, objects | .composite _ :: r, h, objects | .noop _ _ :: r, h, objects =>
    fetchBatches_sound w r h.2 objects

theorem runJoined_sound (w : Run.Waiting) (seen : List String) : (nodes : List Node) →
    Node.EverywhereIn (Fetches fl d good bad) nodes → (objects : List (Fields Value)) →
    Run.Sound good bad (runJoined fl d w seen nodes objects)
  | [], _, _ => .pure _
  | .table t children :: r, h, objects => by
    rw [runJoined]
    split
    · exact runJoined_sound w seen r h.2 objects
    · refine Run.Sound.beside ?_ (fun objects => runJoined_sound w _ r h.2 objects)
      exact (onValues_sound (complete_sound (.table t children) h.1) _).bind (fun _ => .pure _)
  | .column _ :: r, h, objects | .composite _ :: r, h, objects | .noop _ _ :: r, h, objects =>
    runJoined_sound w seen r h.2 objects

end

/-- The value of the root is completed without bad errors if all boundaries are fetched so. -/
theorem completeRoot_sound {t : Table} {children : List Node}
    (fetches : ∀ b ∈ (Node.table t children).statementRoots, Fetches fl d good bad b.1 b.2)
    (value : Value) :
    Run.Sound good bad (do
      if Node.anyBatch children then
        let values ← onValues (complete fl d (.table t children)) [value]
        return values.headD .null
      else return value) := by
  have below : Node.EverywhereIn (Fetches fl d good bad) children :=
    Node.everywhereIn_mono (fun _ _ fetches batch => fetches batch batch) children
      (Node.everywhereIn_of_boundariesIn children
        (fun b boundary => fetches b (List.mem_cons_of_mem _ boundary)))
  have own : Fetches fl d good bad t children := fetches (t, children) (List.mem_cons_self ..)
  split
  · exact (onValues_sound (complete_sound (.table t children) ⟨own, below⟩) _).bind
      (fun _ => .pure _)
  · exact .pure _

end Levels

theorem run_sound {root : Node} (coherent : root.Everywhere Table.Coherent)
    (apart : root.Everywhere Table.JoinsApart) (shaped : Shape.checkPlan root = .ok ())
    (remembers : d.Remembers good (Answered fl root.statementRoots)) :
    Sound good (run fl d root) := by
  have fetches (b : Table × List Node) (hb : b ∈ root.statementRoots) :
      Fetches fl d good (fun e => e.toError.OfResult) b.1 b.2 := by
    obtain ⟨shape, hs⟩ := Shape.shaped_of_checkPlan shaped hb
    exact fun _ scope _ => fetchGroups_sound (Node.everywhere_statementRoot coherent hb)
      (Node.everywhere_statementRoot apart hb) hs hb remembers scope
  cases root with
  | table t children =>
    have own : (t, children) ∈ (Node.table t children).statementRoots := List.mem_cons_self ..
    obtain ⟨shape, hs⟩ := Shape.shaped_of_checkPlan shaped own
    have completed := completeRoot_sound fetches
    rw [run]
    refine (fetch_sound coherent hs own remembers none).bind_of_good (fun _ => ?_)
      (fun _ items _ fetched last => ?_)
    · exact Run.Sound.bind (.ofExcept (fun _ _ => id)) (fun value => (completed value).keeps)
    obtain ⟨rows, rfl⟩ := fetch_ok coherent hs own remembers fetched last
    have fits := Shape.fits_values (t := t)
      (Shape.fitsIn_values (.table t children) apart hs rows) (t.many || t.paginate)
    have converted := Connection.convert_avoids (.table t children) apart fits
    exact Run.Sound.bind (.ofExcept (ConnectionError.avoids_ofResult converted)) completed
  | column _ | composite _ | noop _ _ => exact .pure _

end Execution

section Request

variable {Ctx : Type} {schema : Schema Ctx}

/-- Shape and statement of every root agree: all that the shape reads is named in the select list of
the statement's text. So no run ends with a complaint about its result as long as every statement
it issued was answered with the columns that its text selects. -/
theorem execute_valid_result {types : List (ObjectType Ctx)} {queryType : String}
    (built : Schema.build types queryType = .ok schema) (fl : Sql.Flavor) (minify : Bool) (cx : Ctx)
    {x : Selection} (distinct : Selection.DistinctKeys schema schema.queryType [x]) :
    (∀ root, schema.plan minify cx x = .ok root → ∀ b ∈ root.statementRoots, ∀ shape scope q,
      Shape.ofNode "" (.table b.1 b.2) = .ok shape →
      Sql.compile fl (.table b.1 b.2) scope = .ok q →
      ∃ st, Sql.statement fl (.table b.1 b.2) scope = .ok st ∧ st.query fl = q ∧
        Sql.Selects q.sql (st.selection fl) ∧
        shape.labels ⊆ (st.selection fl).map Prod.snd) ∧
    ∀ (σ : Type) (d : Driver σ) (good : σ → Prop),
      (∀ root, schema.plan minify cx x = .ok root →
        d.Remembers good (Answered fl root.statementRoots)) →
      ∀ s e s', execute schema fl minify cx d x s = (.error e, s') → good s'.driver →
        ¬e.isA .invalidResult := by
  have valid := Schema.valid_of_build built
  constructor
  · intro root planned b hb shape scope q shaped compiled
    obtain ⟨st, stated, rfl⟩ := map_eq_ok.mp compiled
    have coherent := Plan.Node.everywhere_statementRoot (Plan.plan_coherent valid planned) hb
    refine ⟨st, stated, rfl, Sql.Statement.selects coherent.1.related stated, ?_⟩
    rw [Sql.Statement.map_snd_selection]
    exact Shape.labels_subset_outputs coherent shaped stated
  · intro σ d good remembers s e s' failed last
    have sound : Sound good (Execution.ofSelection schema fl minify cx d x) := by
      refine Run.Sound.ofExcept_bind (fun e _ => e.not_ofResult) (fun root planned => ?_)
      refine Run.Sound.ofExcept_bind (fun e _ => e.not_ofResult) (fun _ shaped => ?_)
      exact Execution.run_sound (Plan.plan_coherent valid planned)
        (Plan.plan_joinsApart distinct planned) shaped (remembers root planned)
    rw [execute] at failed
    split at failed
    · cases failed
    · rename_i stop _ ran
      cases failed
      exact sound.failed _ _ _ ran last
    · cases failed
      exact Error.cancelled_not_ofResult

end Request

/-- Answers every statement with one row that has the columns of them all. -/
def shopDriver : Driver Unit where
  answer _ s := (.rows false [⟨.ok ⟨[("id", .int 1), ("name", .text "Desk"), ("sku", .text "D-1"),
    ("productSku", .text "D-1")]⟩, false⟩], s)

theorem shopDriver_remembers {root : Plan.Node}
    (planned : shop.plan false () (productsRequest none) = .ok root) :
    shopDriver.Remembers (fun _ => True) (Answered .sqlite root.statementRoots) := by
  rw [plan_productsRequest] at planned
  cases planned
  refine fun q s _ => ⟨trivial, fun b hb scope st items stated written selects sources x hx => ?_⟩
  obtain rfl := List.mem_singleton.mp hx
  have coherent := Plan.Node.everywhere_statementRoot
    (Plan.plan_coherent (Schema.valid_of_build build_shop) (plan_productsRequest none)) hb
  have own : Sql.Selects q.sql (st.selection .sqlite) := by
    rw [← written]
    exact Sql.Statement.selects coherent.1.related stated
  rw [selects.unique own sources, Sql.Statement.map_snd_selection]
  intro name selected
  have item := Sql.Part.mem_outputs.mp selected
  rw [Sql.statement_items coherent stated] at item
  have columns : (Sql.childItems .sqlite b.1 [b.1.label] b.2).map Sql.SelectItem.output ⊆
      ["id", "name", "sku", "productSku"] := by
    rcases List.mem_cons.mp hb with rfl | hb
    · decide
    · obtain rfl := List.mem_singleton.mp hb
      decide
  exact columns item

theorem execute_valid_result_shop :
    (∃ shape q, Shape.ofNode "" (.table productsTable (productNodes "name")) = .ok shape ∧
      Sql.compile .sqlite (.table productsTable (productNodes "name")) none = .ok q ∧
      Sql.Selects q.sql [("\"products\".\"id\"", "id"), ("\"products\".\"name\"", "name"),
        ("\"products\".\"sku\"", "sku")] ∧ shape.labels ⊆ ["id", "name", "sku"]) ∧
    (∃ s', execute shop .sqlite false () shopDriver (productsRequest none) ⟨(), false, []⟩ =
      (.ok (.list [.object [("id", .int 1), ("name", .text "Desk"), ("sku", .text "D-1"),
        ("variants", .list [.object [("id", .int 1), ("productSku", .text "D-1")]])]]), s')) ∧
    ∀ s e s', execute shop .sqlite false () shopDriver (productsRequest none) s =
      (.error e, s') → ¬e.isA .invalidResult := by
  have distinct := distinctKeys_productsRequest none (by decide)
  have agree := execute_valid_result build_shop .sqlite false () distinct
  refine ⟨?_, ⟨_, Prod.ext rfl rfl⟩, fun s e s' failed => ?_⟩
  · have selection : (Sql.statement .sqlite (.table productsTable (productNodes "name")) none).map
        (Sql.Statement.selection .sqlite) = .ok [("\"products\".\"id\"", "id"),
          ("\"products\".\"name\"", "name"), ("\"products\".\"sku\"", "sku")] := rfl
    obtain ⟨st, stated, items⟩ := map_eq_ok.mp selection
    obtain ⟨shape, shaped⟩ : ∃ shape,
        Shape.ofNode "" (.table productsTable (productNodes "name")) = .ok shape := ⟨_, rfl⟩
    have compiled : Sql.compile .sqlite (.table productsTable (productNodes "name")) none =
        .ok (st.query .sqlite) := map_eq_ok.mpr ⟨st, stated, rfl⟩
    obtain ⟨st', stated', _, selects, labels⟩ := agree.1 _ (plan_productsRequest none)
      (productsTable, productNodes "name") (List.mem_cons_self ..) shape none _ shaped compiled
    obtain rfl := Except.ok.inj (stated.symm.trans stated')
    rw [items] at selects labels
    exact ⟨shape, _, shaped, compiled, selects, labels⟩
  · exact agree.2 Unit shopDriver (fun _ => True) (fun _ => shopDriver_remembers) s e s' failed
      trivial

end TreeQuery
