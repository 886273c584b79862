import TreeQuery.Proofs.Lockstep
import TreeQuery.Proofs.Sql.Placeholders
import TreeQuery.Proofs.Sql.Relations
import TreeQuery.Proofs.Sql.Restricted

/-!
The restricted dialect beside the full one. A plan that has a statement in the full dialect has one
in the restricted dialect too, unless it has a page that is not supported there; then the error says
so.
-/

namespace TreeQuery

open Plan (Node Paging Table)

namespace Plan

/-- A statement goes by a batch to the table, so that it selects keys for it and not its rows. -/
def Table.isByKey (t : Table) : Bool :=
  match t.join, t.junction with
  | some _, _ => false
  | none, some j => j.batch.isSome
  | none, none => t.batch.isSome

mutual

/-- The tables whose rows a statement selects. -/
def Node.reachedTables : Node → List Table
  | .table t children => t :: Node.reachedBelow children
  | _ => []

def Node.reachedBelow : List Node → List Table
  | [] => []
  | .table t children :: r =>
    (if t.isByKey then [] else [t]) ++ (if t.isBatch then [] else Node.reachedBelow children) ++
      Node.reachedBelow r
  | _ :: r => Node.reachedBelow r

end

theorem Node.reachedBelow_cons (n : Node) (r : List Node) :
    Node.reachedBelow (n :: r) = Node.reachedBelow [n] ++ Node.reachedBelow r := by
  cases n <;> simp [Node.reachedBelow]

namespace Table

/-- A page that the restricted dialect has: one by keyset, and of a table without a relation. -/
def HasRootPage (t : Table) : Prop := t.isRelated = false ∧ ∃ p, t.paging = .ok (.keyset p)

/-- Why the restricted dialect has no page of the table. -/
inductive Lacks (t : Table) : Sql.SqlError → Prop
  | lateral (paginate : t.paginate = true) (related : t.isRelated = true) :
    t.Lacks (.noLateral t.location .sqlite)
  | window {p : OffsetPage} (paginate : t.paginate = true) (asked : t.paging = .ok (.offset p)) :
    t.Lacks (.noWindow t.location .sqlite)

/-- A page for each row above, or one by offset. -/
def HasOtherPage (t : Table) : Prop := t.isRelated = true ∨ ∃ p, t.paging = .ok (.offset p)

theorem HasRootPage.not_other {t : Table} (h : t.HasRootPage) : ¬t.HasOtherPage := by
  obtain ⟨unrelated, p, keyed⟩ := h
  rintro (related | ⟨q, offset⟩)
  · rw [unrelated] at related
    cases related
  · rw [keyed] at offset
    cases offset

theorem Lacks.paginate {t : Table} {e : Sql.SqlError} (h : t.Lacks e) : t.paginate = true := by
  cases h <;> assumption

theorem Lacks.hasOtherPage {t : Table} {e : Sql.SqlError} (h : t.Lacks e) : t.HasOtherPage := by
  cases h with
  | lateral _ related => exact .inl related
  | window _ asked => exact .inr ⟨_, asked⟩

theorem Lacks.unsupported {t : Table} {e : Sql.SqlError} (h : t.Lacks e) :
    ∃ message, e.toError = .unsupportedFeature message := by
  cases h <;> exact ⟨_, rfl⟩

theorem Selectable.hasRootPage {t : Table} (h : t.Selectable .sqlite) : t.HasRootPage := by
  obtain ⟨p, asked, supported⟩ := h
  cases related : t.isRelated with
  | true => simp [Sql.checkSupport, related] at supported
  | false =>
    cases p with
    | offset p => simp [Sql.checkSupport, related, Paging.isOffset] at supported
    | keyset p => exact ⟨related, p, asked⟩

end Table

end Plan

namespace Sql

/-- From the same parameters on, either the first computation fails for something missing, or both
fail alike, or both succeed with related results and the same parameters. -/
def Narrows {α β : Type} (Missing : SqlError → Prop) (R : α → β → Prop) (m : Binder α)
    (m' : Binder β) : Prop :=
  ∀ ps, (∃ e, m.run ps = .error e ∧ Missing e) ∨
    Outcomes (fun x y => R x.1 y.1 ∧ x.2 = y.2) (m.run ps) (m'.run ps)

namespace Narrows

variable {α β γ δ : Type} {Missing More : SqlError → Prop} {R : α → β → Prop} {T : γ → δ → Prop}
variable {m : Binder α} {m' : Binder β}

theorem pure {a : α} {b : β} (related : R a b) :
    Narrows Missing R (pure a : Binder α) (pure b) := fun _ => .inr (.ok ⟨related, rfl⟩)

theorem throw (e : SqlError) : Narrows Missing R (throw e : Binder α) (throw e) :=
  fun _ => .inr (.error e)

theorem missing {e : SqlError} (h : Missing e) : Narrows Missing R (liftM (Except.error e)) m' :=
  fun _ => .inl ⟨e, rfl, h⟩

theorem same (m : Binder α) : Narrows Missing Eq m m := by
  intro ps
  right
  cases m.run ps with
  | ok x => exact .ok ⟨rfl, rfl⟩
  | error e => exact .error e

theorem bind {f : α → Binder γ} {g : β → Binder δ} (first : Narrows Missing R m m')
    (later : ∀ a b, R a b → Narrows Missing T (f a) (g b)) :
    Narrows Missing T (m >>= f) (m' >>= g) := by
  intro ps
  rw [StateT.run_bind, StateT.run_bind]
  rcases first ps with ⟨e, failed, missing⟩ | both
  · left
    rw [failed]
    exact ⟨e, rfl, missing⟩
  · generalize m.run ps = x, m'.run ps = y at both
    cases both with
    | error e => exact .inr (.error e)
    | @ok x y related =>
      obtain ⟨a, ps⟩ := x
      obtain ⟨b, ps'⟩ := y
      obtain ⟨related, rfl⟩ := related
      exact later a b related ps

/-- Both computations begin with the same one. -/
theorem after {P : α → Prop} {m : Binder α} {f : α → Binder γ} {g : α → Binder δ}
    (known : Yields P m) (later : ∀ a, P a → Narrows Missing T (f a) (g a)) :
    Narrows Missing T (m >>= f) (m >>= g) := by
  intro ps
  rw [StateT.run_bind, StateT.run_bind]
  cases ran : m.run ps with
  | error e => exact .inr (.error e)
  | ok x => exact later x.1 (known.returned ran) x.2

theorem ite {c : Prop} [Decidable c] {n : Binder α} {n' : Binder β}
    (yes : c → Narrows Missing R m m') (no : ¬c → Narrows Missing R n n') :
    Narrows Missing R (if c then m else n) (if c then m' else n') := by
  by_cases h : c
  · rw [if_pos h, if_pos h]
    exact yes h
  · rw [if_neg h, if_neg h]
    exact no h

theorem mono (h : Narrows Missing R m m') (more : ∀ e, Missing e → More e) :
    Narrows More R m m' :=
  fun ps => (h ps).imp_left (fun ⟨e, failed, missing⟩ => ⟨e, failed, more e missing⟩)

end Narrows

section Parts

variable {t : Table} {parent : Option Table} {path : List String} {scope : Option (List Value)}

theorem supportedPaging_narrows (paginate : t.paginate = true) (lateral : Bool)
    (related : lateral = true → t.isRelated = true) :
    Narrows t.Lacks Eq (supportedPaging .sqlite t lateral)
      (supportedPaging .postgresql t lateral) := by
  have asked : Yields (fun p => t.paging = .ok p) (getPaging t) :=
    .lift (fun _ done => mapError_eq_ok.mp done)
  apply Narrows.after asked
  intro p asked
  have supported : Narrows t.Lacks Eq
      (liftM (checkSupport .sqlite t.location lateral p.isOffset) : Binder Unit)
      (liftM (checkSupport .postgresql t.location lateral p.isOffset)) := by
    cases lateral with
    | true => exact .missing (.lateral paginate (related rfl))
    | false =>
      cases p with
      | offset p => exact .missing (.window paginate asked)
      | keyset p => exact .same _
  apply supported.bind
  rintro _ _ rfl
  exact .same _

/-- What goes on in one way from a supported page on. -/
theorem Narrows.onPage {Missing : SqlError → Prop} {α β : Type} {m m' : Binder β} {f : β → Binder α}
    (first : Narrows Missing Eq m m') : Narrows Missing Eq (m >>= f) (m' >>= f) := by
  apply first.bind
  rintro x _ rfl
  exact .same _

theorem joinPart_narrows {join : List Clause} (directly : t.join = some join) :
    Narrows t.Lacks Eq (joinPart .sqlite parent t join) (joinPart .postgresql parent t join) := by
  have related : t.isRelated = true := by simp [Table.isRelated, directly]
  cases parent with
  | none => exact .throw _
  | some p =>
    apply Narrows.ite
    · intro paginate
      exact (supportedPaging_narrows paginate true (fun _ => related)).onPage.onPage
    · intro _
      exact .same _

theorem junctionPart_narrows {j : Plan.Junction} (through : t.junction = some j) :
    Narrows t.Lacks Eq (junctionPart .sqlite parent t j) (junctionPart .postgresql parent t j) := by
  have related : t.isRelated = true := by simp [Table.isRelated, through]
  cases parent with
  | none => exact .throw _
  | some p =>
    simp only [junctionPart]
    cases j.fromParent with
    | none => exact .throw _
    | some fromParent =>
      cases j.toChild with
      | none => exact .throw _
      | some toChild =>
        apply Narrows.ite
        · intro paginate
          exact (supportedPaging_narrows paginate true (fun _ => related)).onPage.onPage
        · intro _
          exact .same _

theorem batchPart_narrows {b : Plan.Batch} (many : t.batch = some b) :
    Narrows t.Lacks Eq (batchPart .sqlite none path scope t b)
      (batchPart .postgresql none path scope t b) := by
  have related : t.isRelated = true := by simp [Table.isRelated, many]
  apply Narrows.after (.outcome _)
  intro values _
  apply Narrows.ite
  · intro paginate
    exact (supportedPaging_narrows paginate true (fun _ => related)).onPage.onPage
  · intro _
    exact .same _

theorem junctionBatchPart_narrows {j : Plan.Junction} {b : Plan.JunctionBatch}
    (through : t.junction = some j) :
    Narrows t.Lacks Eq (junctionBatchPart .sqlite none path scope t j b)
      (junctionBatchPart .postgresql none path scope t j b) := by
  have related : t.isRelated = true := by simp [Table.isRelated, through]
  simp only [junctionBatchPart]
  cases b.join with
  | none => exact .throw _
  | some join =>
    apply Narrows.after (.outcome _)
    intro values _
    apply Narrows.ite
    · intro paginate
      exact (supportedPaging_narrows paginate true (fun _ => related)).onPage.onPage
    · intro _
      exact .same _

theorem rootPart_narrows :
    Narrows t.Lacks Eq (rootPart .sqlite parent t) (rootPart .postgresql parent t) := by
  cases parent with
  | some p => exact .throw _
  | none =>
    simp only [rootPart, Option.isSome_none, Bool.false_eq_true, if_false]
    apply Narrows.ite
    · intro paginate
      exact (supportedPaging_narrows paginate false (by simp)).onPage.onPage
    · intro _
      exact .same _

/-- A table of which a statement selects keys only is the same in both dialects. -/
theorem relationPart_narrows : Narrows (fun e => (parent.isSome && t.isByKey) = false ∧ t.Lacks e) Eq
    (relationPart .sqlite parent path scope t) (relationPart .postgresql parent path scope t) := by
  unfold relationPart Table.isByKey
  cases directly : t.join with
  | some join => exact (joinPart_narrows directly).mono (fun e lacks => ⟨by simp, lacks⟩)
  | none =>
    cases through : t.junction with
    | some j =>
      cases many : j.batch with
      | some b =>
        simp only [many]
        cases parent with
        | some p => exact .same _
        | none => exact (junctionBatchPart_narrows through).mono (fun e lacks => ⟨by simp, lacks⟩)
      | none =>
        simp only [many]
        exact (junctionPart_narrows through).mono (fun e lacks => ⟨by simp, lacks⟩)
    | none =>
      cases many : t.batch with
      | some b =>
        cases parent with
        | some p => exact .same _
        | none => exact (batchPart_narrows many).mono (fun e lacks => ⟨by simp, lacks⟩)
      | none => exact rootPart_narrows.mono (fun e lacks => ⟨by simp, lacks⟩)

theorem tablePart_narrows : Narrows (fun e => (parent.isSome && t.isByKey) = false ∧ t.Lacks e) Eq
    (tablePart .sqlite parent path scope t) (tablePart .postgresql parent path scope t) := by
  apply Narrows.after (.outcome _)
  intro conditions _
  apply Narrows.after (.outcome _)
  intro orders _
  exact relationPart_narrows.onPage

end Parts

/-- Some table among these has a page that is missing from the restricted dialect. -/
def MissingFrom (tables : List Table) (e : SqlError) : Prop := ∃ u ∈ tables, u.Lacks e

theorem MissingFrom.mono {tables more : List Table} (within : tables ⊆ more) (e : SqlError)
    (h : MissingFrom tables e) : MissingFrom more e := by
  obtain ⟨u, member, lacks⟩ := h
  exact ⟨u, within member, lacks⟩

mutual

theorem nodePart_narrows : (n : Node) → (parent : Table) → (path : List String) →
    (scope : Option (List Value)) → Narrows (MissingFrom (Node.reachedBelow [n])) Any
      (nodePart .sqlite (some parent) path scope n) (nodePart .postgresql (some parent) path scope n)
  | .table t children, parent, path, scope => by
    rw [nodePart, nodePart]
    have table : Narrows (MissingFrom (Node.reachedBelow [.table t children])) Eq
        (tablePart .sqlite (some parent) path scope t)
        (tablePart .postgresql (some parent) path scope t) := by
      apply tablePart_narrows.mono
      rintro e ⟨selected, lacks⟩
      have selected : t.isByKey = false := selected
      exact ⟨t, by simp [Node.reachedBelow, selected], lacks⟩
    apply table.bind
    rintro here _ rfl
    apply Narrows.ite
    · intro continued
      have single : t.isBatch = false := by simpa [continues] using continued
      have below := childrenPart_narrows children t (path ++ [t.label])
      apply (below.mono (MissingFrom.mono ?_)).bind
      · intro _ _ _
        exact .pure trivial
      · simp [Node.reachedBelow, single]
    · intro _
      exact .pure trivial
  | .column _, _, _, _ | .composite _, _, _, _ | .noop _ _, _, _, _ => .pure trivial

theorem childrenPart_narrows : (children : List Node) → (parent : Table) → (path : List String) →
    Narrows (MissingFrom (Node.reachedBelow children)) Any
      (childrenPart .sqlite parent path children) (childrenPart .postgresql parent path children)
  | [], _, _ => .pure trivial
  | c :: r, parent, path => by
    rw [childrenPart, childrenPart, Node.reachedBelow_cons]
    have first := nodePart_narrows c parent path none
    apply (first.mono (MissingFrom.mono (List.subset_append_left _ _))).bind
    intro _ _ _
    have later := childrenPart_narrows r parent path
    apply (later.mono (MissingFrom.mono (List.subset_append_right _ _))).bind
    intro _ _ _
    exact .pure trivial

end

/-- A statement of the full dialect is one of the restricted dialect as well, unless something is
missing there for one of its pages. -/
theorem compile_narrows (node : Node) (scope : Option (List Value)) :
    (∃ e, compile .sqlite node scope = .error e ∧ MissingFrom node.reachedTables e) ∨
      Outcomes Any (compile .sqlite node scope) (compile .postgresql node scope) := by
  cases node with
  | column _ | composite _ | noop _ _ => exact .inr (.error _)
  | table t children =>
    rw [compile, compile, statement, statement]
    simp only [Node.table?]
    by_cases empty : scope.any List.isEmpty = true
    · rw [if_pos empty, if_pos empty]
      exact .inr (.error _)
    · rw [if_neg empty, if_neg empty]
      have part : Narrows (MissingFrom (Node.table t children).reachedTables) Any
          (nodePart .sqlite none [] scope (.table t children))
          (nodePart .postgresql none [] scope (.table t children)) := by
        rw [nodePart, nodePart]
        apply (tablePart_narrows.mono (fun e lacks => ⟨t, List.mem_cons_self, lacks.2⟩)).bind
        rintro here _ rfl
        have below := childrenPart_narrows children t [t.label]
        apply (below.mono (MissingFrom.mono (List.subset_cons_self _ _))).bind
        intro _ _ _
        exact .pure trivial
      rcases part .empty with ⟨e, failed, missing⟩ | both
      · left
        rw [failed]
        exact ⟨e, rfl, missing⟩
      · right
        generalize (nodePart .sqlite none [] scope (.table t children)).run .empty = x,
          (nodePart .postgresql none [] scope (.table t children)).run .empty = y at both
        cases both with
        | error e => exact .error e
        | ok _ => exact .ok trivial

section Pages

variable {t : Table} {path : List String}

/-- A table below others is not paginated in a statement of the restricted dialect. -/
theorem relationPart_unpaged {p : Table} {scope : Option (List Value)}
    (selected : t.isByKey = false) : Yields (fun _ => t.paginate = false)
      (relationPart .sqlite (some p) path scope t) := by
  unfold Table.isByKey at selected
  unfold relationPart
  cases directly : t.join with
  | some join =>
    apply Yields.ite
    · intro _
      exact .refused (.refused supportedPaging_related)
    · intro unpaged
      exact ⟨fun _ => Bool.eq_false_iff.mpr unpaged⟩
  | none =>
    rw [directly] at selected
    cases through : t.junction with
    | some j =>
      rw [through] at selected
      cases many : j.batch with
      | some b => simp [many] at selected
      | none =>
        simp only [many, junctionPart]
        cases j.fromParent with
        | none => exact .throw _
        | some fromParent =>
          cases j.toChild with
          | none => exact .throw _
          | some toChild =>
            apply Yields.ite
            · intro _
              exact .refused (.refused supportedPaging_related)
            · intro unpaged
              exact ⟨fun _ => Bool.eq_false_iff.mpr unpaged⟩
    | none =>
      rw [through] at selected
      cases many : t.batch with
      | some b => simp [many] at selected
      | none => exact .throw _

mutual

theorem nodePart_unpaged : (n : Node) → (parent : Table) → (path : List String) →
    (scope : Option (List Value)) → Yields (fun _ => ∀ u ∈ Node.reachedBelow [n], u.paginate = false)
      (nodePart .sqlite (some parent) path scope n)
  | .table t children, parent, path, scope => by
    rw [nodePart]
    have table : Yields (fun _ => t.isByKey = false → t.paginate = false)
        (tablePart .sqlite (some parent) path scope t) := by
      apply Yields.after
      intro _
      apply Yields.after
      intro _
      cases selected : t.isByKey with
      | true => exact ⟨fun _ => nofun⟩
      | false => exact (relationPart_unpaged selected).checked (fun _ unpaged _ => unpaged)
    apply table.bind
    intro here unpaged
    have reached (below : ∀ u ∈ if t.isBatch then [] else Node.reachedBelow children,
        u.paginate = false) : ∀ u ∈ Node.reachedBelow [.table t children], u.paginate = false := by
      simp only [Node.reachedBelow, List.append_nil]
      refine List.forall_mem_append.mpr ⟨?_, below⟩
      cases selected : t.isByKey with
      | true => simp
      | false => simpa using unpaged selected
    apply Yields.ite
    · intro continued
      have single : t.isBatch = false := by simpa [continues] using continued
      apply (childrenPart_unpaged children t (path ++ [t.label])).checked
      intro rest below
      exact reached (by simpa [single] using below)
    · intro apart
      have batch : t.isBatch = true := by simpa [continues] using apart
      exact .pure (reached (by simp [batch]))
  | .column _, _, _, _ | .composite _, _, _, _ | .noop _ _, _, _, _ => by
    exact ⟨fun _ => by simp [Node.reachedBelow]⟩

theorem childrenPart_unpaged : (children : List Node) → (parent : Table) → (path : List String) →
    Yields (fun _ => ∀ u ∈ Node.reachedBelow children, u.paginate = false)
      (childrenPart .sqlite parent path children)
  | [], _, _ => .pure (by simp [Node.reachedBelow])
  | c :: r, parent, path => by
    rw [childrenPart, Node.reachedBelow_cons]
    apply (nodePart_unpaged c parent path none).bind
    intro here first
    apply (childrenPart_unpaged r parent path).checked
    intro rest later
    exact List.forall_mem_append.mpr ⟨first, later⟩

end

theorem rootPage_of_statement {children : List Node} {scope : Option (List Value)} {st : Statement}
    (stated : statement .sqlite (.table t children) scope = .ok st) :
    (t.paginate = true → t.HasRootPage) ∧ ∀ u ∈ Node.reachedBelow children, u.paginate = false := by
  obtain ⟨here, rest, _, ranHere, ranRest, _⟩ := statement_table stated
  constructor
  · intro paginate
    exact (tablePart_taken.returned ranHere rfl paginate).hasRootPage
  · exact (childrenPart_unpaged children t _).returned ranRest

end Pages

theorem hasRootPage_of_compile {node : Node} {scope : Option (List Value)} {q : Query}
    (compiled : compile .sqlite node scope = .ok q) :
    ∀ u ∈ node.reachedTables, u.paginate = true → u.HasRootPage := by
  obtain ⟨st, stated, _⟩ := map_eq_ok.mp compiled
  intro u member paginate
  cases node with
  | column _ | composite _ | noop _ _ => cases member
  | table t children =>
    obtain ⟨own, below⟩ := rootPage_of_statement stated
    rcases List.mem_cons.mp member with rfl | nested
    · exact own paginate
    · exact absurd paginate (by simp [below u nested])

/-- A statement of the restricted dialect is made of what the dialect has: base tables, plain joins
and pages that are not counted, written in the dialect's words. Only its first table can be
paginated, by keyset and without a relation. A plan that has a statement in the full dialect has one
in the restricted dialect if and only if it has no other pages, and else the error says that the
feature is not supported. -/
theorem compile_restricted (node : Node) (scope : Option (List Value)) :
    (∀ q, compile .sqlite node scope = .ok q →
      (∃ part, statement .sqlite node scope = .ok ⟨part, q.params⟩ ∧
        part.Restricted node.authorTexts) ∧
      (∃ ls : List Lexeme, q.sql = String.join (ls.map Lexeme.text) ∧
        ∀ l ∈ ls, l.Restricted node.authorTexts ∧
          ∀ w, l = .word w → ∀ m ∈ missingWords, ¬m.toList <:+: w.toList) ∧
      ∃ t children, node = .table t children ∧ (t.paginate = true → t.HasRootPage) ∧
        ∀ u ∈ Node.reachedBelow children, u.paginate = false) ∧
    ∀ q, compile .postgresql node scope = .ok q →
      ((∀ u ∈ node.reachedTables, u.paginate = true → u.HasRootPage) →
        ∃ q', compile .sqlite node scope = .ok q') ∧
      ∀ u ∈ node.reachedTables, u.paginate = true → u.HasOtherPage →
        ∃ e message, compile .sqlite node scope = .error e ∧
          e.toError = .unsupportedFeature message := by
  constructor
  · intro q compiled
    obtain ⟨⟨part, params⟩, stated, rfl⟩ := map_eq_ok.mp compiled
    obtain ⟨table, _, ran⟩ := statement_ok.mp stated
    have restricted : part.Restricted node.authorTexts :=
      (nodePart_restricted node (List.Subset.refl _) none [] scope).returned ran
    refine ⟨⟨part, stated, restricted⟩, ?_, ?_⟩
    · obtain ⟨ls, spelled, allowed⟩ := restricted.spelled params
      refine ⟨ls, spelled, fun l member => ⟨allowed l member, ?_⟩⟩
      rintro w rfl m missing
      exact restrictedWords_lack (allowed _ member) missing
    · cases node with
      | column _ | composite _ | noop _ _ => cases table
      | table t children => exact ⟨t, children, rfl, rootPage_of_statement stated⟩
  · intro q compiled
    have both := compile_narrows node scope
    rw [compiled] at both
    constructor
    · intro pages
      rcases both with ⟨e, _, u, member, lacks⟩ | alike
      · exact absurd lacks.hasOtherPage (pages u member lacks.paginate).not_other
      · exact alike.ok_left
    · intro u member paginate other
      rcases both with ⟨e, failed, w, _, lacks⟩ | alike
      · obtain ⟨message, unsupported⟩ := lacks.unsupported
        exact ⟨e, message, failed, unsupported⟩
      · obtain ⟨q', restricted⟩ := alike.ok_left
        exact absurd other (hasRootPage_of_compile restricted u member paginate).not_other

/-- The page of books is one of the restricted dialect, and those of the authors' books are not. -/
theorem compile_restricted_books :
    (∃ (q : Query) (ls : List Lexeme),
      compile .sqlite (.table pricedTable pricedNodes) none = .ok q ∧
        q.sql = String.join (ls.map Lexeme.text) ∧ (∀ l ∈ ls, l.Restricted []) ∧
        pricedTable.HasRootPage) ∧
    ∃ (q : Query) (e : SqlError) (message : String),
      compile .postgresql (authorsNode (.text "A%") [] ⟨[("first", .int 2)]⟩) none = .ok q ∧
        compile .sqlite (authorsNode (.text "A%") [] ⟨[("first", .int 2)]⟩) none = .error e ∧
        e.toError = .unsupportedFeature message := by
  constructor
  · have compiled : compile .sqlite (.table pricedTable pricedNodes) none =
        .ok (pricedStatement.query .sqlite) := by
      rw [compile, statement_firstBook]
      rfl
    obtain ⟨_, ⟨ls, spelled, allowed⟩, t, children, same, page, _⟩ :=
      (compile_restricted _ _).1 _ compiled
    cases same
    exact ⟨_, ls, compiled, spelled, fun l member => (allowed l member).1, page rfl⟩
  · generalize hn : authorsNode (.text "A%") [] ⟨[("first", .int 2)]⟩ = n
    have accepted : (compile .postgresql n none).isOk = true := by
      subst hn
      rfl
    cases compiled : compile .postgresql n none with
    | error e => simp [compiled, Except.isOk, Except.toBool] at accepted
    | ok q =>
      have reached : ∃ u ∈ n.reachedTables, u.paginate = true ∧ u.HasOtherPage := by
        subst hn
        simp [authorsNode, Node.reachedTables, Node.reachedBelow, Table.isByKey, Table.isBatch,
          Table.junctionBatch?, Table.HasOtherPage, Table.isRelated]
      obtain ⟨u, member, paginate, other⟩ := reached
      obtain ⟨e, message, failed, unsupported⟩ :=
        ((compile_restricted n none).2 q compiled).2 u member paginate other
      exact ⟨q, e, message, rfl, failed, unsupported⟩

end Sql

end TreeQuery
