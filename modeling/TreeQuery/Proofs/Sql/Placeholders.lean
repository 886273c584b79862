import TreeQuery.Proofs.Sql.Binding
import TreeQuery.Proofs.Sql.InPlace
import TreeQuery.Proofs.Sql.Selected

/-!
Every placeholder is bound to the value that is written where it stands. Each part of a statement
is followed beside the same part with its values in place.
-/

namespace TreeQuery.Sql

open Plan (KeysetPage Node Paging Table)
open Worded (words map)

section Predicates

variable (a : Labels)

theorem bindValue_follows (v : Value) :
    Follows Stands (bindValue v) (pure (InPlace.value v)) := by
  intro before
  have bound : (bindValue v).run (.ofValues before) =
      .ok (.param (before.length + 1) v, .ofValues (before ++ [v])) := by
    rw [bindValue_run, Params.push_ofValues]
  rw [bound]
  refine .done [v] ⟨rfl, fun position w => ?_⟩
  simp [Params.numbered]

theorem bindValues_follows (vs : List Value) :
    Follows Stands (bindValues vs) (pure (vs.map InPlace.value)) := by
  induction vs with
  | nil => exact .pure .nil
  | cons v vs inductionHypothesis =>
    apply (bindValue_follows v).bind_pure
    intro b t here
    apply inductionHypothesis.bind_pure
    intro c ts later
    apply Follows.pure
    rw [List.append_nil]
    exact here.cons later

theorem columnToken_follows (c : ColumnRef) :
    Follows (fun bound x y => Follows.Unbound bound x y ∧ x.isParam = false) (columnToken a c)
      (InPlace.column a c) := by
  apply (Follows.lift _).bind
  rintro _ label _ ⟨rfl, rfl⟩
  exact .pure ⟨⟨rfl, rfl⟩, rfl⟩

theorem comparison_follows {column : Token} (plain : column.isParam = false) (op : CompareOp)
    (v : Value) :
    Follows Stands (comparison column op v) (pure (InPlace.comparison column op v)) := by
  have compared : Follows Stands
      (do return [column, .sql (" " ++ op.sql ++ " "), ← bindValue v])
      (pure [column, .sql (" " ++ op.sql ++ " "), InPlace.value v]) := by
    apply (bindValue_follows v).bind_pure
    intro b t here
    apply Follows.pure
    apply (here.one.surround [column, .sql _] [] (by simp [plain]) nofun).reorder
    simp
  have asked (text : String) : Stands [] [column, .sql text] [column, .sql text] :=
    .plain (by simp [plain])
  unfold comparison
  split
  · exact .pure (asked _)
  · exact .pure (asked _)
  · rename_i notEq notNe
    rw [InPlace.comparison.eq_3 _ _ _ notEq notNe]
    exact compared

theorem membership_follows {column : Token} (plain : column.isParam = false) (vs : List Value) :
    Follows Stands (membership column vs) (pure (InPlace.membership column vs)) := by
  apply (bindValues_follows vs).bind_pure
  intro b ts here
  apply Follows.pure
  have singles : Stands b (ts.map (fun t => [t])) (vs.map (fun v => [InPlace.value v])) := by
    constructor
    · calc map Token.inPlace (ts.map (fun t => [t]))
          = (map Token.inPlace ts).map (fun t => [t]) := by simp [map]
        _ = vs.map (fun v => [InPlace.value v]) := by rw [here.inPlace, List.map_map]; rfl
    · intro position v
      rw [← here.places]
      simp [words]
  apply ((singles.between (t := .sql ", ") rfl).surround [column, .sql " IN ("] [.sql ")"]
    (by simp [plain]) (by simp)).reorder
  simp

theorem pieceToken_follows (params : Fields Value) (p : Piece) :
    Follows Stands (pieceToken a params p) (InPlace.piece a params p) := by
  cases p with
  | char c => exact .pure ⟨rfl, by simp⟩
  | role r =>
    apply (Follows.lift _).bind
    rintro _ label _ ⟨rfl, rfl⟩
    exact .pure ⟨rfl, by simp⟩
  | param name => exact bindValue_follows _

theorem raw_follows (sql : String) (params : Fields Value) :
    Follows Stands (raw a sql params) (InPlace.raw a sql params) := by
  unfold raw InPlace.raw
  induction pieces (Fields.contains params) sql with
  | nil => exact .pure .nil
  | cons p ps inductionHypothesis =>
    rw [pieceTokens, List.mapM_cons]
    apply (pieceToken_follows a params p).bind
    intro b t u here
    apply inductionHypothesis.bind
    intro c ts us later
    apply Follows.pure
    rw [List.append_nil]
    exact here.cons later

mutual

theorem condition_follows : (c : Condition) →
    Follows Stands (condition a c) (InPlace.condition a c)
  | .compare c op v => by
    rw [condition, InPlace.condition]
    apply (columnToken_follows a c).bind
    rintro _ column _ ⟨⟨rfl, rfl⟩, plain⟩
    exact comparison_follows plain op v
  | .compareColumns l op r => by
    rw [condition, InPlace.condition]
    apply (columnToken_follows a l).bind
    rintro _ left _ ⟨⟨rfl, rfl⟩, plainLeft⟩
    apply (columnToken_follows a r).bind
    rintro _ right _ ⟨⟨rfl, rfl⟩, plainRight⟩
    exact .pure (.plain (by simp [plainLeft, plainRight]))
  | .within c values => by
    rw [condition, InPlace.condition]
    apply Follows.ite
    · intro _
      exact .pure (.plain (by simp))
    · intro _
      apply (columnToken_follows a c).bind
      rintro _ column _ ⟨⟨rfl, rfl⟩, plain⟩
      exact membership_follows plain values
  | .raw sql params => raw_follows a sql params
  | .group clauses => by
    rw [condition, InPlace.condition]
    apply Follows.ite
    · intro _
      exact .pure (.plain (by simp))
    · intro _
      apply (clauseTokens_follows true clauses).bind
      intro b f g here
      apply Follows.pure
      rw [List.append_nil]
      exact here.surround [.lparen] [.rparen] (by simp) (by simp)
  | .exists sql params => by
    rw [condition, InPlace.condition]
    apply (raw_follows a sql params).bind
    intro b f g here
    apply Follows.pure
    rw [List.append_nil]
    exact here.surround [.sql "EXISTS ("] [.sql ")"] (by simp) (by simp)

theorem clauseTokens_follows (first : Bool) : (clauses : List Clause) →
    Follows Stands (clauseTokens a first clauses) (InPlace.clauseTokens a first clauses)
  | [] => .pure .nil
  | .mk connective negated c :: r => by
    rw [clauseTokens, InPlace.clauseTokens]
    apply (condition_follows c).bind
    intro b f g here
    apply (clauseTokens_follows false r).bind
    intro d fs gs later
    apply Follows.pure
    have lead : Stands [] (if first then [] else [Connective.token connective])
        (if first then [] else [Connective.token connective]) := by
      apply Stands.plain
      cases first <;> cases connective <;> simp [Connective.token]
    have body : Stands b (if negated then .not :: .lparen :: f ++ [.rparen] else f)
        (if negated then .not :: .lparen :: g ++ [.rparen] else g) := by
      cases negated with
      | true => exact here.surround [.not, .lparen] [.rparen] (by simp) (by simp)
      | false => exact here
    rw [List.append_nil]
    exact (lead.append body).append later

end

theorem predicate_follows (clauses : List Clause) :
    Follows Stands (predicate a clauses) (InPlace.predicate a clauses) := by
  unfold predicate InPlace.predicate
  apply Follows.ite
  · intro _
    exact .pure (.plain (by simp))
  · intro _
    apply (clauseTokens_follows a true clauses).bind
    intro b f g here
    apply Follows.pure
    rw [List.append_nil]
    split
    · exact here.surround [.lparen] [.rparen] (by simp) (by simp)
    · exact here

theorem filter_follows (clauses : List Clause) :
    Follows Stands (filter a clauses) (InPlace.filter a clauses) := by
  unfold filter InPlace.filter
  apply Follows.ite
  · intro _
    exact .pure .nil
  · intro _
    apply (predicate_follows a clauses).bind
    intro b f g here
    apply Follows.pure
    rw [List.append_nil]
    exact here.one

end Predicates

section Pages

theorem cursorTerms_follows (p : KeysetPage) (key : SortKey) (vs : List Value) :
    Follows Stands (cursorTerms p key vs) (pure (InPlace.cursorTerms p key vs)) := by
  induction key generalizing vs with
  | nil => exact .pure .nil
  | cons c key inductionHypothesis =>
    cases vs with
    | nil => exact .pure .nil
    | cons v vs =>
      apply (bindValue_follows v).bind_pure
      intro b t here
      apply (inductionHypothesis vs).bind_pure
      intro d ts later
      apply Follows.pure
      rw [List.append_nil]
      have term : Stands b (⟨p.table, c.column, p.direction c, t⟩ : CursorTerm)
          ⟨p.table, c.column, p.direction c, InPlace.value v⟩ :=
        ⟨congrArg (CursorTerm.mk p.table c.column (p.direction c)) here.inPlace, here.places⟩
      exact term.cons later

theorem cursorCondition_follows (p : Paging) :
    Follows Stands (cursorCondition p) (pure (InPlace.cursorCondition p)) := by
  cases p with
  | offset p => exact .pure .nil
  | keyset p =>
    rw [cursorCondition, InPlace.cursorCondition]
    cases p.cursor with
    | none => exact .pure .nil
    | some vs =>
      apply (cursorTerms_follows p p.key vs).bind_pure
      intro b cs here
      apply Follows.pure
      rw [List.append_nil]
      exact here.pastCursor.one

theorem supportedPaging_follows (fl : Flavor) (t : Table) (lateral : Bool) :
    Follows Follows.Unbound (supportedPaging fl t lateral) (InPlace.paging fl t lateral) := by
  apply (Follows.lift _).bind
  rintro _ p _ ⟨rfl, rfl⟩
  apply (Follows.lift _).bind
  rintro _ _ _ ⟨rfl, rfl⟩
  exact .pure ⟨rfl, rfl⟩

variable {b c : List (Nat × Value)} (t : TableName) (label : String) (p : Paging)

theorem Stands.pageOf {i j : Option InnerJoin} {fs gs : List Fragment} (inner : Stands b i j)
    (conditions : Stands c fs gs) :
    Stands (b ++ c) (Sql.pageOf t label i fs p) (Sql.pageOf t label j gs p) where
  inPlace := by
    rw [← inner.inPlace, ← conditions.inPlace]
    rfl
  places position v := by
    rw [List.mem_append, ← inner.places, ← conditions.places]
    exact List.mem_append

/-- A page without a join in it. -/
theorem Stands.plainPage {fs gs : List Fragment} (conditions : Stands c fs gs) :
    Stands c (Sql.pageOf t label none fs p) (Sql.pageOf t label none gs p) := by
  have inner : Stands [] (none : Option InnerJoin) none := ⟨rfl, by simp [words]⟩
  exact Stands.pageOf t label p inner conditions

theorem Stands.lateral (outer : Bool) {x y : Page} {f g : Fragment} (page : Stands b x y)
    (on : Stands c f g) : Stands (b ++ c) (TableItem.lateral outer x f) (.lateral outer y g) where
  inPlace := by
    rw [← page.inPlace, ← on.inPlace]
    rfl
  places position v := by
    rw [List.mem_append, ← page.places, ← on.places]
    exact List.mem_append

theorem Stands.leftJoin (withAs : Bool) {f g : Fragment} (on : Stands b f g) :
    Stands b (TableItem.leftJoin t label withAs f) (.leftJoin t label withAs g) :=
  ⟨congrArg (TableItem.leftJoin t label withAs) on.inPlace, on.places⟩

variable (fl : Flavor) (t : Table)

theorem rootPage_follows : Follows Stands (rootPage fl t) (InPlace.rootPage fl t) := by
  apply (supportedPaging_follows fl t false).bind
  rintro _ p _ ⟨rfl, rfl⟩
  apply (filter_follows _ _).bind
  intro b own own' hOwn
  apply (cursorCondition_follows p).bind_pure
  intro c past hPast
  apply Follows.pure
  have page := (hOwn.append hPast).plainPage t.name t.label p
  apply Stands.reorder (b := b ++ c) ⟨congrArg (fun x => [TableItem.page x]) page.inPlace, ?_⟩
  · simp
  · intro position v
    rw [← page.places, words_cons, words_nil, List.append_nil]
    rfl

theorem joinedPage_follows (parent : Table) (join : List Clause) :
    Follows Stands (joinedPage fl parent t join) (InPlace.joinedPage fl parent t join) := by
  apply (supportedPaging_follows fl t true).bind
  rintro _ p _ ⟨rfl, rfl⟩
  apply (filter_follows _ _).bind
  intro b joined joined' hJoined
  apply (filter_follows _ _).bind
  intro c own own' hOwn
  apply (cursorCondition_follows p).bind_pure
  intro d past hPast
  apply (predicate_follows _ _).bind
  intro e on on' hOn
  apply Follows.pure
  have page := ((hJoined.append hOwn).append hPast).plainPage t.name t.label p
  apply (page.lateral true hOn).one.reorder
  simp

theorem scopeTable_follows (column : String) (scope : List Value) :
    Follows Stands (scopeTable column scope) (pure (InPlace.scopeTable column scope)) := by
  apply (bindValues_follows scope).bind_pure
  intro b values here
  apply Follows.pure
  rw [List.append_nil]
  exact ⟨congrArg (TableItem.scope column) here.inPlace, here.places⟩

theorem correlation_stands (label : String) (keys : Plan.Batch) :
    Stands [] (correlation label keys) (correlation label keys) := .plain (by simp [correlation])

theorem batchPage_follows (keys : Plan.Batch) (scope : List Value) :
    Follows Stands (batchPage fl t keys scope) (InPlace.batchPage fl t keys scope) := by
  apply (supportedPaging_follows fl t true).bind
  rintro _ p _ ⟨rfl, rfl⟩
  apply (scopeTable_follows _ scope).bind_pure
  intro b from_ hFrom
  apply (filter_follows _ _).bind
  intro c own own' hOwn
  apply (cursorCondition_follows p).bind_pure
  intro d past hPast
  apply Follows.pure
  have on := correlation_stands t.label keys
  have page := ((on.cons hOwn).append hPast).plainPage t.name t.label p
  apply (hFrom.cons (page.lateral false on).one).reorder
  simp

theorem innerJoin_follows (j : Plan.Junction) (toChild : List Clause) :
    Follows Stands (innerJoin t j toChild) (InPlace.innerJoin t j toChild) := by
  unfold innerJoin InPlace.innerJoin
  apply Follows.ite
  · intro _
    exact .pure ⟨rfl, by simp [words]⟩
  · intro _
    apply (predicate_follows _ _).bind
    intro b on on' hOn
    apply Follows.pure
    rw [List.append_nil]
    refine ⟨congrArg (fun f => some (InnerJoin.mk t.name t.label f)) hOn.inPlace, fun position v => ?_⟩
    rw [← hOn.places, words_fragment]
    simp [words]

theorem junctionPage_follows (parent : Table) (j : Plan.Junction)
    (fromParent toChild : List Clause) :
    Follows Stands (junctionPage fl parent t j fromParent toChild)
      (InPlace.junctionPage fl parent t j fromParent toChild) := by
  apply (supportedPaging_follows fl t true).bind
  rintro _ p _ ⟨rfl, rfl⟩
  apply (filter_follows _ _).bind
  intro b joined joined' hJoined
  apply (filter_follows _ _).bind
  intro c linked linked' hLinked
  apply (filter_follows _ _).bind
  intro d own own' hOwn
  apply (cursorCondition_follows p).bind_pure
  intro e past hPast
  apply (innerJoin_follows t j toChild).bind
  intro g inner inner' hInner
  apply (predicate_follows _ _).bind
  intro h on on' hOn
  apply Follows.pure
  have conditions := ((hJoined.append hLinked).append hOwn).append hPast
  have page := Stands.pageOf j.table j.label p hInner conditions
  apply (page.lateral true hOn).one.reorder
  intro q
  simp only [List.mem_append, List.not_mem_nil]
  tauto

theorem junctionBatchPage_follows (j : Plan.Junction) (keys : Plan.Batch) (scope : List Value)
    (join : List Clause) :
    Follows Stands (junctionBatchPage fl t j keys scope join)
      (InPlace.junctionBatchPage fl t j keys scope join) := by
  apply (supportedPaging_follows fl t true).bind
  rintro _ p _ ⟨rfl, rfl⟩
  apply (scopeTable_follows _ scope).bind_pure
  intro b from_ hFrom
  apply (filter_follows _ _).bind
  intro c linked linked' hLinked
  apply (filter_follows _ _).bind
  intro d own own' hOwn
  apply (cursorCondition_follows p).bind_pure
  intro e past hPast
  apply (innerJoin_follows t j join).bind
  intro g inner inner' hInner
  apply (predicate_follows _ _).bind
  intro h child child' hChild
  apply Follows.pure
  have on := correlation_stands j.label keys
  have conditions := ((on.cons hLinked).append hOwn).append hPast
  have page := Stands.pageOf j.table j.label p hInner conditions
  have items := hFrom.cons ((page.lateral true on).cons (hChild.leftJoin t.name t.label true).one)
  apply items.reorder
  intro q
  simp only [List.mem_append, List.not_mem_nil]
  tauto

end Pages

section Parts

/-- Parts of a statement with nothing bound in what they select. -/
def StandsPlain (bound : List (Nat × Value)) (x y : Part) : Prop :=
  Stands bound x y ∧ x.SelectsPlain

variable {b c : List (Nat × Value)}

theorem StandsPlain.append {x y x' y' : Part} (h : StandsPlain b x y) (h' : StandsPlain c x' y') :
    StandsPlain (b ++ c) (x ++ x') (y ++ y') := by
  obtain ⟨here, plain⟩ := h
  obtain ⟨there, plain'⟩ := h'
  refine ⟨⟨?_, ?_⟩, ?_⟩
  · rw [map_part_append, here.inPlace, there.inPlace]
  · intro position v
    have first := here.places position v
    have second := there.places position v
    rw [List.mem_append, ← first, ← second, words_part_append]
    change _ ↔ _ ∈ words x.tables ++ words x.conditions ∨ _ ∈ words x'.tables ++ words x'.conditions
    simp only [List.mem_append]
    tauto
  · intro i within
    rcases List.mem_append.mp within with first | second
    · exact plain i first
    · exact plain' i second

/-- Tables with conditions that hold of them. -/
theorem Stands.part {x y : List TableItem} {fs gs : List Fragment} (tables : Stands b x y)
    (conditions : Stands c fs gs) (orders : List OrderTerm) :
    StandsPlain (b ++ c) ⟨[], x, fs, orders⟩ ⟨[], y, gs, orders⟩ := by
  refine ⟨⟨?_, ?_⟩, nofun⟩
  · rw [← tables.inPlace, ← conditions.inPlace]
    rfl
  · intro position v
    rw [List.mem_append, ← tables.places, ← conditions.places]
    exact List.mem_append

theorem Stands.tablesOnly {x y : List TableItem} (tables : Stands b x y) :
    StandsPlain b (tablesOnly x) (tablesOnly y) := by
  have alone := tables.part (.nil : Stands [] ([] : List Fragment) []) []
  rwa [List.append_nil] at alone

theorem parentKey_stands (parent : Table) (path : List String) (key : Plan.BatchKey) :
    StandsPlain [] (parentKey parent path key) (parentKey parent path key) := by
  refine ⟨⟨rfl, by simp [words, parentKey, Part.empty]⟩, ?_⟩
  simp [Part.SelectsPlain, parentKey]

theorem selectOnly_stands {source : Fragment} (plain : ∀ t ∈ source, t.isParam = false)
    (path : List String) (label : String) :
    StandsPlain [] (selectOnly source path label) (selectOnly source path label) := by
  refine ⟨⟨rfl, by simp [words, selectOnly, Part.empty]⟩, ?_⟩
  simpa [Part.SelectsPlain, selectOnly] using plain

theorem columnSource_plain (parent : Table) (c : Plan.Column) :
    ∀ t ∈ columnSource parent c, t.isParam = false := by
  unfold columnSource
  cases c.source <;> simp

theorem compositeSource_plain (fl : Flavor) (parent : Table) (columns : List String) :
    ∀ t ∈ compositeSource fl parent columns, t.isParam = false := by
  have keys : ∀ f ∈ columns.map (fun c => [Token.column parent.label c]), ∀ t ∈ f,
      t.isParam = false := by
    simp
  have joined (text : String) := plain_between (Token.isParam_sql text) keys
  unfold compositeSource
  cases fl with
  | postgresql =>
    intro t within
    simp only [List.cons_append, List.mem_cons, List.mem_append, List.not_mem_nil, or_false] at within
    rcases within with rfl | within | rfl
    · rfl
    · exact joined _ t within
    · rfl
  | sqlite =>
    intro t within
    simp only [List.cons_append, List.mem_cons, List.mem_append, List.not_mem_nil, or_false] at within
    rcases within with rfl | within | rfl
    · rfl
    · exact joined _ t within
    · rfl

variable (fl : Flavor) (parent : Option Table) (path : List String) (scope : Option (List Value))
variable (t : Table)

theorem tableFilter_follows :
    Follows Stands (tableFilter parent t) (InPlace.tableFilter parent t) := by
  unfold tableFilter InPlace.tableFilter
  apply Follows.ite
  · intro _
    exact .pure .nil
  · intro _
    have own {b : List (Nat × Value)} {fs gs : List Fragment} (linked : Stands b fs gs) :
        Follows (fun more => Stands (b ++ more))
          (do return fs ++ (← filter (.ofTable t.label) t.filter))
          (do return gs ++ (← InPlace.filter (.ofTable t.label) t.filter)) := by
      apply (filter_follows _ _).bind
      intro c own own' hOwn
      apply Follows.pure
      rw [List.append_nil]
      exact linked.append hOwn
    cases t.junction with
    | some j =>
      apply (filter_follows _ _).bind
      intro b linked linked' hLinked
      exact own hLinked
    | none => exact own .nil

theorem orderPart_follows :
    Follows Follows.Unbound (orderPart parent t) (InPlace.orders parent t) := by
  unfold orderPart InPlace.orders
  apply Follows.ite
  · intro _
    exact .pure ⟨rfl, rfl⟩
  · intro _
    apply Follows.ite
    · intro _
      apply (Follows.lift _).bind
      rintro _ p _ ⟨rfl, rfl⟩
      exact .pure ⟨rfl, rfl⟩
    · intro _
      exact .pure ⟨rfl, rfl⟩

theorem joinPart_follows (join : List Clause) :
    Follows StandsPlain (joinPart fl parent t join) (InPlace.joinPart fl parent t join) := by
  cases parent with
  | none => exact .throw _
  | some p =>
    simp only [joinPart, InPlace.joinPart]
    apply Follows.ite
    · intro _
      apply (joinedPage_follows fl t p join).bind
      intro b page page' hPage
      apply Follows.pure
      rw [List.append_nil]
      exact hPage.tablesOnly
    · intro _
      apply (predicate_follows _ _).bind
      intro b on on' hOn
      apply Follows.pure
      rw [List.append_nil]
      exact (hOn.leftJoin t.name t.label false).one.tablesOnly

theorem membership_stands (label column : String) (values : List Value) :
    Follows Stands (membership (.column label column) values)
      (pure (InPlace.membership (.column label column) values)) :=
  membership_follows rfl values

theorem base_stands (name : TableName) (label : String) :
    Stands [] (TableItem.base name label) (.base name label) := ⟨rfl, by simp [words]⟩

theorem junctionBatchPart_follows (j : Plan.Junction) (k : Plan.JunctionBatch) :
    Follows StandsPlain (junctionBatchPart fl parent path scope t j k)
      (InPlace.junctionBatchPart fl parent path scope t j k) := by
  cases parent with
  | some p => exact .pure (parentKey_stands p path _)
  | none =>
    simp only [junctionBatchPart, InPlace.junctionBatchPart]
    cases k.join with
    | none => exact .throw _
    | some join =>
      apply (Follows.lift _).bind
      rintro _ values _ ⟨rfl, rfl⟩
      apply Follows.ite
      · intro _
        apply (junctionBatchPage_follows fl t j k.keys values join).bind
        intro b page page' hPage
        apply Follows.pure
        rw [List.append_nil]
        exact hPage.tablesOnly
      · intro _
        apply (predicate_follows _ _).bind
        intro b on on' hOn
        apply (membership_stands _ _ values).bind_pure
        intro c within hWithin
        apply Follows.pure
        rw [List.append_nil]
        have tables := (base_stands j.table j.label).cons (hOn.leftJoin t.name t.label true).one
        exact tables.part hWithin.one []

theorem junctionPart_follows (j : Plan.Junction) :
    Follows StandsPlain (junctionPart fl parent t j) (InPlace.junctionPart fl parent t j) := by
  cases parent with
  | none => exact .throw _
  | some p =>
    simp only [junctionPart, InPlace.junctionPart]
    cases j.fromParent with
    | none => exact .throw _
    | some fromParent =>
      cases j.toChild with
      | none => exact .throw _
      | some toChild =>
        have child {b : List (Nat × Value)} {x y : List TableItem} (link : Stands b x y) :
            Follows (fun more => StandsPlain (b ++ more))
              (do
                let on ← predicate (.ofJoin j.label t.label) toChild
                return tablesOnly (x ++ [.leftJoin t.name t.label false on]))
              (do
                let on ← InPlace.predicate (.ofJoin j.label t.label) toChild
                return tablesOnly (y ++ [.leftJoin t.name t.label false on])) := by
          apply (predicate_follows _ _).bind
          intro c on on' hOn
          apply Follows.pure
          rw [List.append_nil]
          exact (link.append (hOn.leftJoin t.name t.label false).one).tablesOnly
        apply Follows.ite
        · intro _
          apply (junctionPage_follows fl t p j fromParent toChild).bind
          intro b link link' hLink
          exact child hLink
        · intro _
          apply (predicate_follows _ _).bind
          intro b on on' hOn
          exact child (hOn.leftJoin j.table j.label false).one

theorem batchPart_follows (k : Plan.Batch) :
    Follows StandsPlain (batchPart fl parent path scope t k)
      (InPlace.batchPart fl parent path scope t k) := by
  cases parent with
  | some p => exact .pure (parentKey_stands p path _)
  | none =>
    simp only [batchPart, InPlace.batchPart]
    apply (Follows.lift _).bind
    rintro _ values _ ⟨rfl, rfl⟩
    apply Follows.ite
    · intro _
      apply (batchPage_follows fl t k values).bind
      intro b page page' hPage
      apply Follows.pure
      rw [List.append_nil]
      exact hPage.tablesOnly
    · intro _
      apply (membership_stands _ _ values).bind_pure
      intro b within hWithin
      apply Follows.pure
      rw [List.append_nil]
      exact (base_stands t.name t.label).one.part hWithin.one []

theorem rootPart_follows :
    Follows StandsPlain (rootPart fl parent t) (InPlace.rootPart fl parent t) := by
  cases parent with
  | some p => exact .throw _
  | none =>
    simp only [rootPart, InPlace.rootPart, Option.isSome_none, Bool.false_eq_true, if_false]
    apply Follows.ite
    · intro _
      apply (rootPage_follows fl t).bind
      intro b page page' hPage
      apply Follows.pure
      rw [List.append_nil]
      exact hPage.tablesOnly
    · intro _
      exact .pure (base_stands t.name t.label).one.tablesOnly

theorem relationPart_follows : Follows StandsPlain (relationPart fl parent path scope t)
    (InPlace.relationPart fl parent path scope t) := by
  unfold relationPart InPlace.relationPart
  cases t.join with
  | some join => exact joinPart_follows fl parent t join
  | none =>
    cases t.junction with
    | some j =>
      cases hb : j.batch with
      | some k => simpa only [hb] using junctionBatchPart_follows fl parent path scope t j k
      | none => simpa only [hb] using junctionPart_follows fl parent t j
    | none =>
      cases t.batch with
      | some k => exact batchPart_follows fl parent path scope t k
      | none => exact rootPart_follows fl parent t

theorem tablePart_follows : Follows StandsPlain (tablePart fl parent path scope t)
    (InPlace.tablePart fl parent path scope t) := by
  apply (tableFilter_follows parent t).bind
  intro b conditions conditions' hConditions
  apply (orderPart_follows parent t).bind
  rintro _ orders _ ⟨rfl, rfl⟩
  apply (relationPart_follows fl parent path scope t).bind
  intro c relation relation' hRelation
  apply Follows.pure
  rw [List.append_nil]
  exact ((Stands.nil : Stands [] ([] : List TableItem) []).part hConditions orders).append hRelation

end Parts

section Nodes

variable (fl : Flavor)

theorem empty_stands : StandsPlain [] Part.empty Part.empty := Stands.nil.tablesOnly

mutual

theorem nodePart_follows (parent : Option Table) (path : List String)
    (scope : Option (List Value)) : (n : Node) →
    Follows StandsPlain (nodePart fl parent path scope n) (InPlace.nodePart fl parent path scope n)
  | .table t children => by
    rw [nodePart, InPlace.nodePart]
    apply (tablePart_follows fl parent path scope t).bind
    intro b here here' hHere
    apply Follows.ite
    · intro _
      apply (childrenPart_follows t (path ++ [t.label]) children).bind
      intro c below below' hBelow
      apply Follows.pure
      rw [List.append_nil]
      exact hHere.append hBelow
    · intro _
      apply Follows.pure
      rwa [List.append_nil]
  | .column c => by
    cases parent with
    | some p => exact .pure (selectOnly_stands (columnSource_plain p c) path c.label)
    | none => exact .throw _
  | .composite c => by
    cases parent with
    | some p => exact .pure (selectOnly_stands (compositeSource_plain fl p c.columns) path c.label)
    | none => exact .throw _
  | .noop _ _ => .pure empty_stands

theorem childrenPart_follows (parent : Table) (path : List String) : (children : List Node) →
    Follows StandsPlain (childrenPart fl parent path children)
      (InPlace.childrenPart fl parent path children)
  | [] => .pure empty_stands
  | c :: r => by
    rw [childrenPart, InPlace.childrenPart]
    apply (nodePart_follows (some parent) path none c).bind
    intro b here here' hHere
    apply (childrenPart_follows parent path r).bind
    intro d rest rest' hRest
    apply Follows.pure
    rw [List.append_nil]
    exact hHere.append hRest

end

end Nodes

/-- A token with the value of its position in place of a placeholder, if the position has one. -/
def Token.filled? (ps : Params) : Token → Option Token
  | .param position _ => (ps.at? position).map InPlace.value
  | t => some t

theorem filled?_eq_inPlace {ps : Params} {f : Fragment}
    (bound : ∀ position v, .param position v ∈ f → ps.at? position = some v) :
    f.mapM (Token.filled? ps) = some (map Token.inPlace f) := by
  induction f with
  | nil => rfl
  | cons t f inductionHypothesis =>
    have here : t.filled? ps = some t.inPlace := by
      cases t with
      | param position v =>
        rw [Token.filled?, bound position v List.mem_cons_self]
        rfl
      | _ => rfl
    have later := inductionHypothesis (fun n v within => bound n v (List.mem_cons_of_mem _ within))
    rw [List.mapM_cons, here, later]
    rfl

theorem statement_stands {fl : Flavor} {node : Node} {scope : Option (List Value)} {st : Statement}
    (stated : statement fl node scope = .ok st) : ∃ vs written, st.params = .ofValues vs ∧
      InPlace.statement fl node scope = .ok written ∧
      StandsPlain (Params.numbered 0 vs) st.part written := by
  obtain ⟨found, keyed, ran⟩ := statement_ok.mp stated
  obtain ⟨t, found⟩ := Option.isSome_iff_exists.mp found
  have ends := nodePart_follows fl none [] scope node []
  rw [Params.ofValues_nil, ran] at ends
  rw [InPlace.statement, found]
  simp only [keyed, Bool.false_eq_true, if_false]
  generalize InPlace.nodePart fl none [] scope node = w at ends ⊢
  generalize st.params = ps at ends ⊢
  cases ends with
  | @done _ y vs stands => exact ⟨vs, y, rfl, rfl, stands⟩

/-- The SQL of a statement is its parts with every value bound. The parameters are `p1`, `p2`, … at
the positions one, two, …; the placeholders are `$1`, `$2`, … or `?1`, `?2`, … for these positions,
each at least once; and with the values of their positions in place of them, the statement reads as
if it had no parameters. -/
theorem compile_placeholders {fl : Flavor} {node : Node} {scope : Option (List Value)} {q : Query}
    (compiled : compile fl node scope = .ok q) : ∃ part written,
      statement fl node scope = .ok ⟨part, q.params⟩ ∧
      q.sql = Fragment.text fl (part.tokens fl) ∧
      (∀ position v, (Token.param position v).text fl = fl.sign ++ Numeral.ofNat position) ∧
      InPlace.statement fl node scope = .ok written ∧
      Fields.names q.params.entries = (List.range' 1 q.params.size).map Params.positional ∧
      (∀ position v, .param position v ∈ part.tokens fl →
        1 ≤ position ∧ position ≤ q.params.size) ∧
      (∀ position, 1 ≤ position → position ≤ q.params.size →
        ∃ v, .param position v ∈ part.tokens fl) ∧
      (part.tokens fl).mapM (Token.filled? q.params) = some (written.tokens fl) := by
  obtain ⟨⟨part, params⟩, stated, rfl⟩ := map_eq_ok.mp compiled
  obtain ⟨vs, written, bound, inPlace, stands, plain⟩ := statement_stands stated
  change params = .ofValues vs at bound
  subst bound
  have places (position : Nat) (v : Value) :
      .param position v ∈ part.tokens fl ↔ (position, v) ∈ Params.numbered 0 vs := by
    rw [Part.mem_tokens plain, stands.places]
  refine ⟨part, written, stated, (Part.text_tokens part _).symm, Token.text_param fl, inPlace, ?_,
    ?_, ?_, ?_⟩
  · change Fields.names (Params.ofValues vs).entries = _
    rw [Params.names_ofValues, ← Params.size_ofValues vs]
    rfl
  · intro position v within
    obtain ⟨i, found, rfl⟩ := Params.mem_numbered.mp ((places position v).mp within)
    have inside := (List.getElem?_eq_some_iff.mp found).1
    change _ ∧ _ ≤ (Params.ofValues vs).size
    rw [Params.size_ofValues]
    omega
  · intro position first last
    change _ ≤ (Params.ofValues vs).size at last
    rw [Params.size_ofValues] at last
    have inside : position - 1 < vs.length := by omega
    refine ⟨vs[position - 1], (places _ _).mpr (Params.mem_numbered.mpr ⟨position - 1, ?_, by omega⟩)⟩
    exact List.getElem?_eq_getElem inside
  · have bound (position : Nat) (v : Value) (within : .param position v ∈ part.tokens fl) :
        (Params.ofValues vs).at? position = some v :=
      Params.at?_ofValues.mpr ((places position v).mp within)
    change (part.tokens fl).mapM (Token.filled? (.ofValues vs)) = _
    rw [filled?_eq_inPlace bound, Part.map_tokens inPlace_fixesPlain plain, stands.inPlace]

/-- Authors by name, each with a page of the books in some languages. -/
def authorsNode (name : Value) (languages : List Value) (arguments : Arguments) : Node :=
  .table
    { name := .ident "authors", label := "authors", fieldName := "authors", arguments := .empty,
      join := none, junction := none, batch := none,
      filter := [.mk .and false (.compare ⟨.this, "name"⟩ .like name)],
      orderBy := none, sortKey := none, paginate := false, many := true, location := ["authors"] }
    [.table
      { name := .ident "books", label := "books", fieldName := "books", arguments,
        join := some [.mk .and false (.compareColumns ⟨.parent, "id"⟩ .eq ⟨.child, "author"⟩),
          .mk .and false (.within ⟨.child, "language"⟩ languages)],
        junction := none, batch := none,
        filter := [.mk .and false (.compare ⟨.this, "year"⟩ .lt (.int 1900))],
        orderBy := none, sortKey := some [⟨"year", "year", .ascending, .int⟩], paginate := true,
        many := true, location := ["authors", "books"] }
      []]

/-- A condition that is read twice is bound twice. -/
theorem compile_placeholders_authors : ∃ q part written,
    compile .postgresql
      (authorsNode (.text "A%") [.text "en", .text "fr"] ⟨[("first", .int 2)]⟩) none = .ok q ∧
    q.params.values =
      [.text "A%", .text "en", .text "fr", .int 1900, .text "en", .text "fr"] ∧
    statement .postgresql
      (authorsNode (.text "A%") [.text "en", .text "fr"] ⟨[("first", .int 2)]⟩) none =
      .ok ⟨part, q.params⟩ ∧
    InPlace.statement .postgresql
      (authorsNode (.text "A%") [.text "en", .text "fr"] ⟨[("first", .int 2)]⟩) none =
      .ok written ∧
    (part.tokens .postgresql).mapM (Token.filled? q.params) =
      some (written.tokens .postgresql) := by
  generalize hn : authorsNode (.text "A%") [.text "en", .text "fr"] ⟨[("first", .int 2)]⟩ = n
  have values : (compile .postgresql n none).map (fun q => q.params.values) =
      .ok [.text "A%", .text "en", .text "fr", .int 1900, .text "en", .text "fr"] := by
    subst hn
    rfl
  obtain ⟨q, compiled, values⟩ := map_eq_ok.mp values
  obtain ⟨part, written, stated, _, _, inPlace, _, _, _, filled⟩ := compile_placeholders compiled
  exact ⟨q, part, written, compiled, values, stated, inPlace, filled⟩

end TreeQuery.Sql
