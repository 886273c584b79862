import TreeQuery.Proofs.Sql.Relations

/-!
The labels that conditions refer to. A clause list refers to the labels its roles stand for, and a
cursor to the label of the table that it pages.
-/

namespace TreeQuery.Sql

open Plan (Paging Table)

/-- The labels of the tables that a token refers to. -/
def Token.references : Token → List String
  | .column t _ => [t]
  | .label n => [n]
  | _ => []

/-- A condition refers to tables under some labels only. -/
def RefersTo (labels : List String) (f : Fragment) : Prop :=
  ∀ token ∈ f, token.references ⊆ labels

namespace RefersTo

variable {labels more : List String} {t : Token} {f g : Fragment}

@[simp] theorem nil : RefersTo labels [] := by simp [RefersTo]

@[simp] theorem cons_iff : RefersTo labels (t :: f) ↔ t.references ⊆ labels ∧ RefersTo labels f :=
  List.forall_mem_cons

@[simp] theorem append_iff :
    RefersTo labels (f ++ g) ↔ RefersTo labels f ∧ RefersTo labels g := List.forall_mem_append

theorem mono (h : RefersTo labels f) (within : labels ⊆ more) : RefersTo more f :=
  fun token member => List.Subset.trans (h token member) within

theorem between (plain : t.references = []) {fs : List Fragment}
    (h : ∀ f ∈ fs, RefersTo labels f) : RefersTo labels (between t fs) := by
  induction fs with
  | nil => exact nil
  | cons f fs inductionHypothesis =>
    obtain ⟨first, later⟩ := List.forall_mem_cons.mp h
    have rest := inductionHypothesis later
    cases fs with
    | nil => exact first
    | cons g fs => exact append_iff.mpr ⟨first, cons_iff.mpr ⟨by simp [plain], rest⟩⟩

end RefersTo

@[simp] theorem Token.references_sql (s : String) : (Token.sql s).references = [] := rfl

@[simp] theorem Token.references_column (t c : String) : (Token.column t c).references = [t] := rfl

@[simp] theorem Token.references_label (n : String) : (Token.label n).references = [n] := rfl

@[simp] theorem Token.references_param (position : Nat) (v : Value) :
    (Token.param position v).references = [] := rfl

@[simp] theorem Token.references_lparen : Token.lparen.references = [] := rfl

@[simp] theorem Token.references_rparen : Token.rparen.references = [] := rfl

@[simp] theorem Token.references_and : Token.and.references = [] := rfl

@[simp] theorem Token.references_or : Token.or.references = [] := rfl

@[simp] theorem Token.references_not : Token.not.references = [] := rfl

/-- The labels that some role stands for. -/
def Labels.names (a : Labels) : List String := a.this.toList ++ a.parent.toList ++ a.child.toList

theorem Labels.resolve_names {a : Labels} {r : Role} {label : String}
    (resolved : a.resolve r = .ok label) : label ∈ a.names := by
  unfold resolve at resolved
  split at resolved
  · rename_i found
    cases resolved
    cases r <;> simp only [label?] at found <;> simp [names, found]
  · cases resolved

section Clauses

variable (a : Labels)

theorem resolve_refers (r : Role) :
    Yields (fun label => label ∈ a.names) (liftM (a.resolve r) : Binder String) :=
  .lift (fun _ => Labels.resolve_names)

theorem columnToken_refers (c : ColumnRef) :
    Yields (fun token => token.references ⊆ a.names) (columnToken a c) := by
  apply (resolve_refers a c.role).bind
  intro label resolved
  exact .pure (by simpa using resolved)

theorem bindValue_refers (v : Value) :
    Yields (fun token => token.references = []) (bindValue v) where
  returned ran := by
    cases ran
    rfl

theorem bindValues_refers (values : List Value) :
    Yields (fun tokens => ∀ t ∈ tokens, t.references = []) (bindValues values) := by
  induction values with
  | nil => exact .pure (by simp)
  | cons v values inductionHypothesis =>
    apply (bindValue_refers v).bind
    intro token first
    apply inductionHypothesis.bind
    intro tokens later
    exact .pure (List.forall_mem_cons.mpr ⟨first, later⟩)

variable {labels : List String} {column : Token} (referred : column.references ⊆ labels)

include referred in
theorem comparison_refers (op : CompareOp) (v : Value) :
    Yields (RefersTo labels) (comparison column op v) := by
  unfold comparison
  split
  · exact .pure (by simpa using referred)
  · exact .pure (by simpa using referred)
  · apply (bindValue_refers v).bind
    intro token plain
    exact .pure (by simpa [plain] using referred)

include referred in
theorem membership_refers (values : List Value) :
    Yields (RefersTo labels) (membership column values) := by
  apply (bindValues_refers values).bind
  intro tokens plain
  have listed : RefersTo labels (commaSeparated (tokens.map (fun t => [t]))) := by
    apply RefersTo.between rfl
    intro f member
    obtain ⟨t, ht, rfl⟩ := List.mem_map.mp member
    simp [plain t ht]
  exact .pure (by simpa [listed] using referred)

theorem pieceToken_refers (params : Fields Value) (p : Piece) :
    Yields (fun token => token.references ⊆ a.names) (pieceToken a params p) := by
  cases p with
  | char c => exact .pure (by simp)
  | role r =>
    apply (resolve_refers a r).bind
    intro label resolved
    exact .pure (by simpa using resolved)
  | param name =>
    constructor
    intro ps token ps' ran
    rw [(bindValue_refers _).returned ran]
    exact List.nil_subset _

theorem raw_refers (sql : String) (params : Fields Value) :
    Yields (RefersTo a.names) (raw a sql params) := by
  unfold raw
  induction pieces (Fields.contains params) sql with
  | nil => exact .pure .nil
  | cons p ps inductionHypothesis =>
    rw [pieceTokens]
    apply (pieceToken_refers a params p).bind
    intro token first
    apply inductionHypothesis.bind
    intro tokens later
    exact .pure (RefersTo.cons_iff.mpr ⟨first, later⟩)

mutual

theorem condition_refers : (c : Condition) → Yields (RefersTo a.names) (condition a c)
  | .compare c op v => by
    rw [condition]
    apply (columnToken_refers a c).bind
    intro column referred
    exact comparison_refers referred op v
  | .compareColumns l op r => by
    rw [condition]
    apply (columnToken_refers a l).bind
    intro left first
    apply (columnToken_refers a r).bind
    intro right second
    exact .pure (by simp [first, second])
  | .within c values => by
    rw [condition]
    apply Yields.ite
    · intro _
      exact .pure (by simp)
    · intro _
      apply (columnToken_refers a c).bind
      intro column referred
      exact membership_refers referred values
  | .raw sql params => raw_refers a sql params
  | .group clauses => by
    rw [condition]
    apply Yields.ite
    · intro _
      exact .pure (by simp)
    · intro _
      apply (clauseTokens_refers true clauses).bind
      intro f inner
      exact .pure (by simp [inner])
  | .exists sql params => by
    rw [condition]
    apply (raw_refers a sql params).bind
    intro f inner
    exact .pure (by simp [inner])

theorem clauseTokens_refers (first : Bool) : (clauses : List Clause) →
    Yields (RefersTo a.names) (clauseTokens a first clauses)
  | [] => .pure .nil
  | .mk connective negated c :: r => by
    rw [clauseTokens]
    apply (condition_refers c).bind
    intro body here
    apply (clauseTokens_refers false r).bind
    intro rest later
    have lead : RefersTo a.names (if first then [] else [Connective.token connective]) := by
      cases first <;> cases connective <;> simp [Connective.token]
    have body : RefersTo a.names
        (if negated then .not :: .lparen :: body ++ [.rparen] else body) := by
      cases negated <;> simp [here]
    exact .pure (RefersTo.append_iff.mpr ⟨RefersTo.append_iff.mpr ⟨lead, body⟩, later⟩)

end

theorem predicate_refers (clauses : List Clause) :
    Yields (RefersTo a.names) (predicate a clauses) := by
  unfold predicate
  apply Yields.ite
  · intro _
    exact .pure (by simp)
  · intro _
    apply (clauseTokens_refers a true clauses).bind
    intro tokens inner
    apply Yields.pure
    split <;> simp [inner]

end Clauses

theorem Writes.refersTo {x : Labels × List Clause} {f : Fragment} (written : Writes x f) :
    RefersTo x.1.names f := (predicate_refers x.1 x.2).of_outcome written

/-- Written clause lists refer to what their labels allow. -/
theorem refersTo_of_writes {labels : List String} {xs : List (Labels × List Clause)}
    {fs : List Fragment} (written : List.Forall₂ Writes xs fs)
    (allowed : ∀ x ∈ xs, x.1.names ⊆ labels) : ∀ f ∈ fs, RefersTo labels f := by
  induction written with
  | nil => simp
  | cons first _ inductionHypothesis =>
    obtain ⟨here, later⟩ := List.forall_mem_cons.mp allowed
    exact List.forall_mem_cons.mpr ⟨first.refersTo.mono here, inductionHypothesis later⟩

section Cursors

/-- The label of the table whose order a page is taken in. -/
def pagingLabel : Paging → String
  | .offset p => p.table
  | .keyset p => p.table

theorem pagingOrder_label (p : Paging) : ∀ o ∈ pagingOrder p, o.table = pagingLabel p := by
  cases p <;> simp [pagingOrder, pagingLabel]

theorem pastCursor_refers {label : String} {terms : List CursorTerm}
    (h : ∀ c ∈ terms, c.table = label ∧ c.value.references = []) :
    RefersTo [label] (pastCursor terms) := by
  have compared (c : CursorTerm) (op : String) (hc : c.table = label ∧ c.value.references = []) :
      RefersTo [label] (c.compared op) := by
    simp [CursorTerm.compared, hc.1, hc.2]
  induction terms with
  | nil => simp [pastCursor]
  | cons c terms inductionHypothesis =>
    obtain ⟨first, later⟩ := List.forall_mem_cons.mp h
    have strict : RefersTo [label] c.strict := compared c _ first
    have equal : RefersTo [label] c.equal := compared c _ first
    have rest := inductionHypothesis later
    cases terms with
    | nil => exact strict
    | cons d terms => simp [pastCursor, strict, equal, rest]

theorem cursorTerms_refers (p : Plan.KeysetPage) (key : SortKey) (values : List Value) :
    Yields (fun terms => ∀ c ∈ terms, c.table = p.table ∧ c.value.references = [])
      (cursorTerms p key values) := by
  induction key generalizing values with
  | nil => exact .pure (by simp)
  | cons c key inductionHypothesis =>
    cases values with
    | nil => exact .pure (by simp)
    | cons v values =>
      rw [cursorTerms]
      apply (bindValue_refers v).bind
      intro token plain
      apply (inductionHypothesis values).bind
      intro terms later
      exact .pure (List.forall_mem_cons.mpr ⟨⟨rfl, plain⟩, later⟩)

theorem cursorCondition_refers (p : Paging) :
    Yields (fun fs => ∀ f ∈ fs, RefersTo [pagingLabel p] f) (cursorCondition p) := by
  cases p with
  | offset p => exact .pure (by simp)
  | keyset p =>
    simp only [cursorCondition]
    cases p.cursor with
    | none => exact .pure (by simp)
    | some values =>
      apply (cursorTerms_refers p p.key values).bind
      intro terms named
      apply Yields.pure
      rw [List.forall_mem_singleton]
      exact pastCursor_refers named

end Cursors

end TreeQuery.Sql
