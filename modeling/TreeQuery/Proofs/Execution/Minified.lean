import TreeQuery.Proofs.Execution.Relabelled
import TreeQuery.Proofs.Sql.Legible

/-!
Short labels do not change results. Where a plan with long labels selects one source under each name,
both plans of a request run alike against a database that answers by what a statement selects.
-/

namespace TreeQuery

open Hydration (SameCells)
open Plan (Expression Node Relabels Table)
open Run (Abreast)
open Shape (SameFields)
open Sql (qualified)

namespace Sql

/-- Rows of two statements that hold the same in items of the same source. -/
def RowsAlike (fl : Flavor) (same : Fragment → Fragment → Prop) (st st' : Statement)
    (r r' : Row) : Prop :=
  ∃ ρ ρ', r = st.row fl ρ ∧ r' = st'.row fl ρ' ∧
    ∀ i ∈ st.part.items, ∀ i' ∈ st'.part.items, same i.source i'.source →
      ρ (i.source.text fl) = ρ' (i'.source.text fl)

end Sql

section Fetch

variable {σ Ctx : Type} {s : Schema Ctx} {cx : Ctx} {fl : Sql.Flavor}
variable {t t' : Table} {cs cs' : List Node} {st st' : Sql.Statement}

/-- The labels of two tables and of all below them, place by place. -/
def Plan.Node.labelPairs (n n' : Node) : List (String × String) := n.tableLabels.zip n'.tableLabels

/-- Rows of two statements, place by place, are those of records that agree. -/
theorem Sql.records_of_rowsAlike {same : Sql.Fragment → Sql.Fragment → Prop} {rows rows' : List Row}
    (alike : List.Forall₂ (Sql.RowsAlike fl same st st') rows rows') :
    ∃ records : List ((String → Value) × (String → Value)),
      rows = (records.map Prod.fst).map (st.row fl) ∧
      rows' = (records.map Prod.snd).map (st'.row fl) ∧
      ∀ p ∈ records, ∀ i ∈ st.part.items, ∀ i' ∈ st'.part.items, same i.source i'.source →
        p.1 (i.source.text fl) = p.2 (i'.source.text fl) := by
  induction alike with
  | nil => exact ⟨[], rfl, rfl, nofun⟩
  | cons first _ inductionHypothesis =>
    obtain ⟨ρ, ρ', rfl, rfl, equal⟩ := first
    obtain ⟨records, rfl, rfl, later⟩ := inductionHypothesis
    exact ⟨(ρ, ρ') :: records, rfl, rfl, List.forall_mem_cons.mpr ⟨equal, later⟩⟩

/-- Rows that hold the same items fold into the same objects. -/
theorem Hydration.objects_alike {shape shape' : Shape} {same : Sql.Fragment → Sql.Fragment → Prop}
    (carried : shape.labels ⊆ st.outputs fl) (carried' : shape'.labels ⊆ st'.outputs fl)
    (legible : st.Legible fl) (legible' : st'.Legible fl)
    (fields : SameFields (fun a a' => ∃ i ∈ st.part.items, ∃ i' ∈ st'.part.items,
      same i.source i'.source ∧ i.output = a ∧ i'.output = a') shape.fields shape'.fields)
    {rows rows' : List Row} (alike : List.Forall₂ (Sql.RowsAlike fl same st st') rows rows') :
    objects shape rows = objects shape' rows' := by
  obtain ⟨records, rfl, rfl, equal⟩ := Sql.records_of_rowsAlike alike
  rw [objects_eq _ (carry_rows carried _), objects_eq _ (carry_rows carried' _)]
  have cells : SameFields (SameCells (records.map (fun p => (st.row fl p.1, st'.row fl p.2))))
      shape.fields shape'.fields := by
    refine fields.mono (fun a a' => ?_)
    rintro ⟨i, hi, i', hi', source, rfl, rfl⟩ _ member
    obtain ⟨p, record, rfl⟩ := List.mem_map.mp member
    rw [Row.value_of_get? (legible i hi p.1), Row.value_of_get? (legible' i' hi' p.2)]
    exact equal p record i hi i' hi' source
  have folded := values_pairs cells
  rw [List.map_map, List.map_map] at folded
  rw [List.map_map, List.map_map]
  obtain ⟨fields⟩ := shape
  obtain ⟨fields'⟩ := shape'
  exact congrArg _ folded

/-- Two tables that differ in labels are fetched alike, if their statements are answered alike. -/
theorem fetch_abreast {d : Driver σ} {near : σ → σ → Prop} (same : t.Relabelled t')
    (below : Relabels (Expression s cx) t t' cs cs')
    (coherent : (Node.table t cs).Everywhere Table.Coherent)
    (coherent' : (Node.table t' cs').Everywhere Table.Coherent) (scope : Option (List Value))
    (answers : ∀ st st', Sql.statement fl (.table t cs) scope = .ok st →
      Sql.statement fl (.table t' cs') scope = .ok st' → st.Legible fl ∧ st'.Legible fl ∧
        d.AnswersAlike near (Sql.RowsAlike fl (Sql.SameSource s cx fl
          ((Node.table t cs).labelPairs (.table t' cs'))) st st') (st.query fl) (st'.query fl)) :
    Abreast (Session.Alike near) Eq (Execution.fetch fl d (.table t cs) scope)
      (Execution.fetch fl d (.table t' cs') scope) := by
  have location : (Node.table t' cs').location = (Node.table t cs).location :=
    same.location
  have compiled : Outcomes (fun q q' => ∃ st st', q = st.query fl ∧ q' = st'.query fl ∧
      st.params = st'.params ∧ Sql.statement fl (.table t cs) scope = .ok st ∧
      Sql.statement fl (.table t' cs') scope = .ok st')
      (Sql.compile fl (.table t cs) scope) (Sql.compile fl (.table t' cs') scope) :=
    (Sql.statement_bindsAs fl same below scope).known.map (fun st st' h => ⟨st, st', rfl, rfl, h⟩)
  have shapes := (Shape.ofNode_statements fl same below).known
  unfold Execution.fetch Execution.shapeOf
  rw [location]
  apply (Abreast.ofExcept compiled _).bind
  rintro _ _ ⟨st, st', rfl, rfl, bound, stated, stated'⟩
  obtain ⟨legible, legible', answered⟩ := answers st st' stated stated'
  apply (Abreast.ofExcept (shapes.mapError _) _).bind
  rintro shape shape' ⟨fields, shaped, shaped'⟩
  apply (Session.query_abreast bound answered).bind
  intro rows rows' alike
  rw [← Sql.statement_items coherent stated, ← Sql.statement_items coherent' stated'] at fields
  rw [Hydration.objects_alike (Shape.labels_subset_outputs coherent shaped stated)
    (Shape.labels_subset_outputs coherent' shaped' stated') legible legible' fields alike]
  exact .ofExcept (.same _) _

end Fetch

section Plans

variable {σ Ctx : Type}

/-- In each statement of a plan, items that share a name select one source. -/
def Plan.Node.SourcesApart (fl : Sql.Flavor) (root : Node) : Prop :=
  ∀ b ∈ root.statementRoots, ∀ scope st,
    Sql.statement fl (.table b.1 b.2) scope = .ok st → st.SourcesApart fl

/-- A database answers the statements in the same places of two plans item by item: with as many rows,
and the same in items of one source. -/
def Driver.AnswersItems (d : Driver σ) (near : σ → σ → Prop) (schema : Schema Ctx) (cx : Ctx)
    (fl : Sql.Flavor) (root root' : Node) : Prop :=
  ∀ p ∈ root.statementRoots.zip root'.statementRoots, ∀ scope st st',
    Sql.statement fl (.table p.1.1 p.1.2) scope = .ok st →
    Sql.statement fl (.table p.2.1 p.2.2) scope = .ok st' →
    d.AnswersAlike near (Sql.RowsAlike fl (Sql.SameSource schema cx fl
      ((Node.table p.1.1 p.1.2).labelPairs (.table p.2.1 p.2.2))) st st') (st.query fl) (st'.query fl)

variable {schema : Schema Ctx} {fl : Sql.Flavor} {cx : Ctx} {x : Selection} {d : Driver σ}
variable {near : σ → σ → Prop}

theorem Execution.ofSelection_abreast (valid : schema.Valid)
    (apart : ∀ root, schema.plan false cx x = .ok root → root.SourcesApart fl)
    (answers : ∀ root root', schema.plan false cx x = .ok root → schema.plan true cx x = .ok root' →
      d.AnswersItems near schema cx fl root root') :
    Abreast (Session.Alike near) Eq (ofSelection schema fl false cx d x)
      (ofSelection schema fl true cx d x) := by
  have plans : Outcomes _ (schema.plan false cx x) (schema.plan true cx x) :=
    (Plan.plan_twice false true x).known
  apply (Abreast.ofExcept plans _).bind
  rintro root root' ⟨same, planned, planned'⟩
  rw [Shape.checkPlan_relabelled same]
  apply (Abreast.ofExcept (.same _) _).bind
  rintro _ _ _
  apply run_abreast same
  intro p member scope
  obtain ⟨here, below⟩ := same.at_statementRoots p member
  obtain ⟨root₁, root₂⟩ := List.of_mem_zip member
  apply fetch_abreast here below
    (Node.everywhere_statementRoot (Plan.plan_coherent valid planned) root₁)
    (Node.everywhere_statementRoot (Plan.plan_coherent valid planned') root₂)
  intro st st' stated stated'
  exact ⟨(apart root planned p.1 root₁ scope st stated).legible,
    Sql.legible_of_short valid planned' root₂ stated',
    answers root root' planned planned' p member scope st st' stated stated'⟩

/-- Short labels do not change what a request results in, nor which values its statements bind, if no
two sources of one statement share a name under long labels. -/
theorem execute_minified {types : List (ObjectType Ctx)} {queryType : String}
    (built : Schema.build types queryType = .ok schema)
    (apart : ∀ root, schema.plan false cx x = .ok root → root.SourcesApart fl)
    (answers : ∀ root root', schema.plan false cx x = .ok root → schema.plan true cx x = .ok root' →
      d.AnswersItems near schema cx fl root root')
    {s s' : Session σ} (start : s.Alike near s') :
    (execute schema fl false cx d x s).1 = (execute schema fl true cx d x s').1 ∧
      (execute schema fl false cx d x s).2.Alike near (execute schema fl true cx d x s').2 := by
  obtain ⟨ends, sessions⟩ :=
    Execution.ofSelection_abreast (Schema.valid_of_build built) apart answers s s' start
  unfold execute
  generalize Execution.ofSelection schema fl false cx d x s = r at ends sessions ⊢
  generalize Execution.ofSelection schema fl true cx d x s' = r' at ends sessions ⊢
  obtain ⟨r, s⟩ := r
  obtain ⟨r', s'⟩ := r'
  obtain rfl : r = r' := Outcomes.eq_iff.mp ends
  rcases r with (_ | _) | v <;> exact ⟨rfl, sessions⟩

end Plans

section Store

def shortVariants : Table := { joinedVariants with label := "d" }

def shortStoreNodes : List Node :=
  [.column ⟨.name "id", "id", "b", true, none, productsTable.location⟩,
    .column ⟨.name "name", "name", "c", false, none, productsTable.location ++ ["name"]⟩,
    .table shortVariants
      [.column ⟨.name "id", "id", "e", true, none, joinedVariants.location⟩,
        .column ⟨.name "id", "id", "f", false, none, joinedVariants.location ++ ["id"]⟩]]

theorem plan_shortStore : store.plan true () (productsRequest none) =
    .ok (.table { productsTable with label := "a" } shortStoreNodes) := by
  -- letters are spelled by well-founded recursion, which `rfl` alone does not unfold
  with_unfolding_all rfl

/-- Products and their variants, under labels of choice. -/
def storeStatement (products variants id name variantId variantId' : String) : Sql.Statement where
  part := {
    items := [⟨[.column products "id"], id⟩, ⟨[.column products "name"], name⟩,
      ⟨[.column variants "id"], variantId⟩, ⟨[.column variants "id"], variantId'⟩]
    tables := [.base (.ident "products") products, .leftJoin (.ident "variants") variants false
      [.column variants "productId", .sql " = ", .column products "id"]]
    conditions := []
    orders := [] }
  params := .empty

def longStatement : Sql.Statement :=
  storeStatement "products" "variants" "id" "name" "variants__id" "variants__id"

def shortStatement : Sql.Statement := storeStatement "a" "d" "b" "c" "d__e" "d__f"

theorem statement_long {scope : Option (List Value)} {st : Sql.Statement}
    (stated : Sql.statement .sqlite (.table productsTable (storeNodes "name")) scope = .ok st) :
    st = longStatement := by
  rcases scope with _ | _ | ⟨v, vs⟩ <;> cases stated <;> rfl

theorem statement_short {scope : Option (List Value)} {st : Sql.Statement}
    (stated : Sql.statement .sqlite (.table { productsTable with label := "a" } shortStoreNodes) scope =
      .ok st) : st = shortStatement := by
  rcases scope with _ | _ | ⟨v, vs⟩ <;> cases stated <;> rfl

/-- A desk with one variant. -/
def deskCell (products variants : String) (source : String) : Value :=
  if source = qualified products "name" then .text "Desk"
  else if source = qualified variants "id" then .int 7
  else .int 1

def deskDriver : Driver Unit where
  answer q s :=
    let row := if q.sql = longStatement.sql .sqlite
      then longStatement.row .sqlite (deskCell "products" "variants")
      else shortStatement.row .sqlite (deskCell "a" "d")
    (.rows false [⟨.ok row, false⟩], s)

theorem sourcesApart_store : (Node.table productsTable (storeNodes "name")).SourcesApart .sqlite := by
  intro b member scope st stated
  obtain rfl := List.mem_singleton.mp member
  obtain rfl := statement_long stated
  rw [Sql.Statement.SourcesApart]
  decide +kernel

theorem answersItems_store : deskDriver.AnswersItems Eq store () .sqlite
    (.table productsTable (storeNodes "name"))
    (.table { productsTable with label := "a" } shortStoreNodes) := by
  intro p member scope st st' stated stated'
  obtain rfl := List.mem_singleton.mp member
  obtain rfl := statement_long stated
  obtain rfl := statement_short stated'
  rintro s _ rfl
  have other : shortStatement.sql .sqlite ≠ longStatement.sql .sqlite := by decide +kernel
  refine ⟨?_, rfl⟩
  have first : (deskDriver.answer (longStatement.query .sqlite) s).1 =
      .rows false [⟨.ok (longStatement.row .sqlite (deskCell "products" "variants")), false⟩] := by
    simp [deskDriver, Sql.Statement.query]
  have second : (deskDriver.answer (shortStatement.query .sqlite) s).1 =
      .rows false [⟨.ok (shortStatement.row .sqlite (deskCell "a" "d")), false⟩] := by
    simp [deskDriver, Sql.Statement.query, other]
  rw [first, second]
  refine .rows false (.cons (.row ⟨_, _, rfl, rfl, ?_⟩ false) .nil)
  have cells : ∀ p ∈ [("products", "a"), ("variants", "d")], ∀ column ∈ ["id", "name"],
      deskCell "products" "variants" (qualified p.1 column) =
        deskCell "a" "d" (qualified p.2 column) := by
    simp only [List.mem_cons, List.not_mem_nil, or_false]
    rintro _ (rfl | rfl) _ (rfl | rfl) <;> rfl
  have text (table column : String) :
      Sql.Fragment.text .sqlite [.column table column] = qualified table column := by
    simp [Sql.Fragment.text, Sql.Token.text]
  intro i member i' _ source
  obtain ⟨table, column, own, named⟩ : ∃ table column, i.source = [.column table column] ∧
      column ∈ ["id", "name"] := by
    simp only [longStatement, storeStatement, List.mem_cons, List.not_mem_nil, or_false] at member
    rcases member with rfl | rfl | rfl | rfl <;> exact ⟨_, _, rfl, by decide⟩
  rw [own] at source ⊢
  obtain ⟨table', paired, other⟩ := source.column_eq
  rw [other, text, text]
  exact cells (table, table') paired column named

/-- With long labels the number of a variant is selected once, and with short labels twice. -/
theorem execute_minified_store :
    (longStatement.part.selected .sqlite).length = 3 ∧
    (shortStatement.part.selected .sqlite).length = 4 ∧
    Schema.build storeTypes "Query" = .ok store ∧
    (execute store .sqlite false () deskDriver (productsRequest none) ⟨(), false, []⟩).1 =
      .ok (.list [.object [("id", .int 1), ("name", .text "Desk"),
        ("variants", .list [.object [("id", .int 7)]])]]) ∧
    (execute store .sqlite false () deskDriver (productsRequest none) ⟨(), false, []⟩).1 =
      (execute store .sqlite true () deskDriver (productsRequest none) ⟨(), false, []⟩).1 ∧
    (execute store .sqlite false () deskDriver (productsRequest none) ⟨(), false, []⟩).2.Alike Eq
      (execute store .sqlite true () deskDriver (productsRequest none) ⟨(), false, []⟩).2 := by
  refine ⟨by decide +kernel, by decide +kernel, build_store, ?_, ?_⟩
  · set_option maxRecDepth 4000 in rfl
  apply execute_minified build_store
  · intro root planned
    cases (plan_store none).symm.trans planned
    exact sourcesApart_store
  · intro root root' planned planned'
    cases (plan_store none).symm.trans planned
    cases plan_shortStore.symm.trans planned'
    exact answersItems_store
  · exact ⟨rfl, rfl, rfl⟩

end Store

end TreeQuery
