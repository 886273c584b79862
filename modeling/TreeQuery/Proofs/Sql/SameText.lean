import TreeQuery.Proofs.Sql.Placeholders
import TreeQuery.Proofs.Sql.Variants

/-!
The text of a statement does not depend on the values that are bound to it. Two plans that differ
in values only are rendered side by side, part by part.
-/

namespace TreeQuery.Sql

open Plan (KeysetPage Node Paging Table)
open Worded (words map)

section Predicates

theorem bindValue_agrees (v w : Value) : Agree Alike (bindValue v) (bindValue w) := by
  intro ps ps' qs qs' x y names ran ran'
  have size : ps.size = ps'.size := by
    simpa [Params.size, Fields.names] using congrArg List.length names
  have bound : Fields.names (ps.push v).2.entries = Fields.names (ps'.push w).2.entries := by
    change Fields.names (Fields.insert _ _ _) = Fields.names (Fields.insert _ _ _)
    rw [Fields.names_insert, Fields.names_insert, Params.freshName, Params.freshName, names, size]
  have position : (ps.push v).1 = (ps'.push w).1 := by
    have sizes := congrArg List.length bound
    rwa [Fields.names, Fields.names, List.length_map, List.length_map] at sizes
  cases (bindValue_run v ps).symm.trans ran
  cases (bindValue_run w ps').symm.trans ran'
  constructor
  · change Token.param _ _ = Token.param _ _
    rw [position]
  · exact bound

theorem bindValues_agrees {vs ws : List Value} (length : vs.length = ws.length) :
    Agree Alike (bindValues vs) (bindValues ws) := by
  induction vs generalizing ws with
  | nil =>
    obtain rfl := List.eq_nil_of_length_eq_zero length.symm
    exact .pure (.refl [])
  | cons v vs inductionHypothesis =>
    cases ws with
    | nil => cases length
    | cons w ws =>
      apply (bindValue_agrees v w).bind
      intro t t' here
      apply (inductionHypothesis (Nat.succ.inj length)).bind
      intro ts ts' later
      exact .pure (here.cons later)

variable (a : Labels)

theorem columnToken_agrees (c : ColumnRef) :
    Agree (fun x y => x = y) (columnToken a c) (columnToken a c) := by
  apply (Agree.lift_same (a.resolve c.role)).bind
  rintro label _ rfl
  exact .pure rfl

theorem comparison_agrees (column : Token) (op : CompareOp) {v w : Value}
    (null : v.isNull = w.isNull) :
    Agree Alike (comparison column op v) (comparison column op w) := by
  have compared : Agree Alike
      (do return [column, .sql (" " ++ op.sql ++ " "), ← bindValue v])
      (do return [column, .sql (" " ++ op.sql ++ " "), ← bindValue w]) := by
    apply (bindValue_agrees v w).bind
    intro t t' here
    exact .pure (here.one.surround [column, .sql _] [])
  cases v <;> cases w <;> cases null <;> cases op <;> first | exact compared | exact .pure (.refl _)

theorem membership_agrees (column : Token) {vs ws : List Value} (length : vs.length = ws.length) :
    Agree Alike (membership column vs) (membership column ws) := by
  apply (bindValues_agrees length).bind
  intro ts us here
  apply Agree.pure
  have singles : Alike (ts.map (fun t => [t])) (us.map (fun t => [t])) := by
    have each (l : List Token) : map Token.blank (l.map (fun t => [t])) =
        (map Token.blank l).map (fun t => [t]) := by
      simp [map]
    rw [Alike, each, each, here]
  exact (singles.between (.sql ", ")).surround [column, .sql " IN ("] [.sql ")"]

theorem pieceToken_agrees (ps qs : Fields Value) (p : Piece) :
    Agree Alike (pieceToken a ps p) (pieceToken a qs p) := by
  cases p with
  | char c => exact .pure (.refl _)
  | role r =>
    apply (Agree.lift_same (a.resolve r)).bind
    rintro label _ rfl
    exact .pure (.refl _)
  | param name => exact bindValue_agrees _ _

theorem raw_agrees (sql : String) {ps qs : Fields Value}
    (names : ∀ n, n ∈ Fields.names ps ↔ n ∈ Fields.names qs) :
    Agree Alike (raw a sql ps) (raw a sql qs) := by
  have known : Fields.contains ps = Fields.contains qs := by
    funext n
    rw [Bool.eq_iff_iff, Fields.contains, Fields.contains, Fields.isSome_get?, Fields.isSome_get?]
    exact names n
  unfold raw
  rw [known]
  induction pieces (Fields.contains qs) sql with
  | nil => exact .pure (.refl [])
  | cons p pieces inductionHypothesis =>
    apply (pieceToken_agrees a ps qs p).bind
    intro t u here
    apply inductionHypothesis.bind
    intro ts us later
    exact .pure (here.cons later)

mutual

theorem condition_agrees : (c : Condition) → {d : Condition} → c.Variant d →
    Agree Alike (condition a c) (condition a d)
  | .compare c op v, _, same => by
    cases same with
    | compare _ _ null =>
      rw [condition, condition]
      apply (columnToken_agrees a c).bind
      rintro column _ rfl
      exact comparison_agrees column op null
  | .compareColumns l op r, _, same => by
    cases same with
    | compareColumns _ _ _ =>
      rw [condition]
      apply (columnToken_agrees a l).bind
      rintro left _ rfl
      apply (columnToken_agrees a r).bind
      rintro right _ rfl
      exact .pure (.refl _)
  | .within c vs, _, same => by
    cases same with
    | @within _ _ ws length =>
      rw [condition, condition]
      have empty : vs.isEmpty = true ↔ ws.isEmpty = true := by
        rw [List.isEmpty_iff_length_eq_zero, List.isEmpty_iff_length_eq_zero, length]
      apply Agree.ite empty
      · intro _
        exact .pure (.refl _)
      · intro _
        apply (columnToken_agrees a c).bind
        rintro column _ rfl
        exact membership_agrees column length
  | .raw sql ps, _, same => by
    cases same with
    | raw _ names =>
      rw [condition, condition]
      exact raw_agrees a sql names
  | .group cs, _, same => by
    cases same with
    | group clauses =>
      rw [condition, condition]
      apply Agree.ite (by rw [clauses.isEmpty])
      · intro _
        exact .pure (.refl _)
      · intro _
        apply (clauseTokens_agrees true cs clauses).bind
        intro f g here
        exact .pure (here.surround [.lparen] [.rparen])
  | .exists sql ps, _, same => by
    cases same with
    | «exists» _ names =>
      rw [condition, condition]
      apply (raw_agrees a sql names).bind
      intro f g here
      exact .pure (here.surround [.sql "EXISTS ("] [.sql ")"])

theorem clauseTokens_agrees (first : Bool) : (cs : List Clause) → {ds : List Clause} →
    Clause.Variants cs ds → Agree Alike (clauseTokens a first cs) (clauseTokens a first ds)
  | [], _, same => by
    cases same
    exact .pure (.refl [])
  | .mk connective negated c :: cs, _, same => by
    cases same with
    | cons _ _ condition rest =>
      rw [clauseTokens, clauseTokens]
      apply (condition_agrees c condition).bind
      intro f g here
      apply (clauseTokens_agrees false cs rest).bind
      intro fs gs later
      apply Agree.pure
      apply Alike.append _ later
      apply (Alike.refl _).append
      cases negated with
      | true => exact here.surround [.not, .lparen] [.rparen]
      | false => exact here

end

theorem hasAlternatives_eq {cs ds : List Clause} (h : Clause.Variants cs ds) :
    hasAlternatives cs = hasAlternatives ds := by
  have any {cs ds : List Clause} (h : Clause.Variants cs ds) :
      cs.any (fun c => c.connective = .or) = ds.any (fun c => c.connective = .or) := by
    induction cs generalizing ds with
    | nil =>
      cases h
      rfl
    | cons c cs inductionHypothesis =>
      cases h with
      | cons _ _ _ rest =>
        rw [List.any_cons, List.any_cons, inductionHypothesis rest]
        rfl
  cases h with
  | nil => rfl
  | cons _ _ _ rest => exact any rest

theorem predicate_agrees {cs ds : List Clause} (h : Clause.Variants cs ds) :
    Agree Alike (predicate a cs) (predicate a ds) := by
  unfold predicate
  apply Agree.ite (by rw [h.isEmpty])
  · intro _
    exact .pure (.refl _)
  · intro _
    apply (clauseTokens_agrees a true cs h).bind
    intro f g here
    apply Agree.pure
    rw [hasAlternatives_eq h]
    split
    · exact here.surround [.lparen] [.rparen]
    · exact here

theorem filter_agrees {cs ds : List Clause} (h : Clause.Variants cs ds) :
    Agree Alike (filter a cs) (filter a ds) := by
  unfold filter
  apply Agree.ite (by rw [h.isEmpty])
  · intro _
    exact .pure (.refl _)
  · intro _
    apply (predicate_agrees a h).bind
    intro f g here
    exact .pure here.one

end Predicates

section Pages

variable {p p' : Paging}

theorem cursorTerms_agrees (p : KeysetPage) (q : KeysetPage) (sameTable : p.table = q.table)
    (directions : p.direction = q.direction) (key : SortKey) {vs ws : List Value}
    (length : vs.length = ws.length) : Agree Alike (cursorTerms p key vs) (cursorTerms q key ws) := by
  induction key generalizing vs ws with
  | nil => exact .pure (.refl [])
  | cons c key inductionHypothesis =>
    cases vs with
    | nil =>
      obtain rfl := List.eq_nil_of_length_eq_zero length.symm
      exact .pure (.refl [])
    | cons v vs =>
      cases ws with
      | nil => cases length
      | cons w ws =>
        apply (bindValue_agrees v w).bind
        intro t t' here
        apply (inductionHypothesis (Nat.succ.inj length)).bind
        intro ts ts' later
        apply Agree.pure
        have term : Alike (⟨p.table, c.column, p.direction c, t⟩ : CursorTerm)
            ⟨q.table, c.column, q.direction c, t'⟩ := by
          rw [sameTable, directions]
          exact congrArg (CursorTerm.mk q.table c.column (q.direction c)) here
        exact term.cons later

theorem cursorCondition_agrees (h : p.Variant p') :
    Agree Alike (cursorCondition p) (cursorCondition p') := by
  cases h with
  | offset p => exact .pure (.refl [])
  | keyset p lengths =>
    rw [cursorCondition, cursorCondition]
    generalize p.cursor = given at lengths
    cases lengths with
    | none => exact .pure (.refl [])
    | @some vs ws length =>
      apply (cursorTerms_agrees p { p with cursor := some ws } rfl rfl p.key length).bind
      intro cs ds here
      exact .pure here.pastCursor.one

theorem Alike.pageOf (h : p.Variant p') (t : TableName) (label : String) {i j : Option InnerJoin}
    {fs gs : List Fragment} (inner : Alike i j) (conditions : Alike fs gs) :
    Alike (pageOf t label i fs p) (pageOf t label j gs p') := by
  have page (q : Paging) (i : Option InnerJoin) (fs : List Fragment) :
      map Token.blank (Sql.pageOf t label i fs q) =
        Sql.pageOf t label (map Token.blank i) (map Token.blank fs) q := rfl
  rw [Alike, page, page, inner, conditions]
  cases h <;> rfl

theorem Alike.lateral (outer : Bool) {x y : Page} {f g : Fragment} (page : Alike x y)
    (on : Alike f g) : Alike (TableItem.lateral outer x f) (.lateral outer y g) := by
  change TableItem.lateral _ _ _ = TableItem.lateral _ _ _
  rw [page, on]

theorem Alike.leftJoin (t : TableName) (label : String) (withAs : Bool) {f g : Fragment}
    (on : Alike f g) : Alike (TableItem.leftJoin t label withAs f) (.leftJoin t label withAs g) :=
  congrArg (TableItem.leftJoin t label withAs) on

variable {t t' : Table} (fl : Flavor) {vs ws : List Value}

theorem scopeTable_agrees (column : String) (length : vs.length = ws.length) :
    Agree Alike (scopeTable column vs) (scopeTable column ws) := by
  apply (bindValues_agrees length).bind
  intro ts us here
  exact .pure (congrArg (TableItem.scope column) here)

theorem getPaging_agrees (h : t.Variant t') : Agree Paging.Variant (getPaging t) (getPaging t') := by
  apply Agree.lift
  intro p p' asked asked'
  exact h.paging (mapError_eq_ok.mp asked) (mapError_eq_ok.mp asked')

theorem supportedPaging_agrees (h : t.Variant t') (lateral : Bool) :
    Agree Paging.Variant (supportedPaging fl t lateral) (supportedPaging fl t' lateral) := by
  apply (getPaging_agrees h).bind
  intro p p' same
  apply (Agree.lift (R := fun _ _ => True) (fun _ _ _ _ => trivial)).bind
  intro _ _ _
  exact .pure same

theorem rootPage_agrees (h : t.Variant t') : Agree Alike (rootPage fl t) (rootPage fl t') := by
  apply (supportedPaging_agrees fl h false).bind
  intro p p' same
  cases h with
  | mk _ _ _ filters =>
    apply (filter_agrees _ filters).bind
    intro own own' hOwn
    apply (cursorCondition_agrees same).bind
    intro past past' hPast
    have page := Alike.pageOf same t.name t.label (.refl none) (hOwn.append hPast)
    exact .pure (congrArg (fun x => [TableItem.page x]) page)

theorem joinedPage_agrees {parent parent' : Table} (labels : parent.label = parent'.label)
    (h : t.Variant t') {join join' : List Clause} (joins : Clause.Variants join join') :
    Agree Alike (joinedPage fl parent t join) (joinedPage fl parent' t' join') := by
  apply (supportedPaging_agrees fl h true).bind
  intro p p' same
  rw [labels]
  cases h with
  | mk _ _ _ filters =>
    apply (filter_agrees _ joins).bind
    intro joined joined' hJoined
    apply (filter_agrees _ filters).bind
    intro own own' hOwn
    apply (cursorCondition_agrees same).bind
    intro past past' hPast
    apply (predicate_agrees _ joins).bind
    intro on on' hOn
    have page := Alike.pageOf same t.name t.label (.refl none) ((hJoined.append hOwn).append hPast)
    exact .pure (page.lateral true hOn).one

theorem batchPage_agrees (h : t.Variant t') (keys : Plan.Batch) (length : vs.length = ws.length) :
    Agree Alike (batchPage fl t keys vs) (batchPage fl t' keys ws) := by
  apply (supportedPaging_agrees fl h true).bind
  intro p p' same
  apply (scopeTable_agrees _ length).bind
  intro from_ from' hFrom
  cases h with
  | mk _ _ _ filters =>
    apply (filter_agrees _ filters).bind
    intro own own' hOwn
    apply (cursorCondition_agrees same).bind
    intro past past' hPast
    have on := Alike.refl (correlation t.label keys)
    have page := Alike.pageOf same t.name t.label (.refl none) ((on.cons hOwn).append hPast)
    exact .pure (hFrom.cons (page.lateral false on).one)

theorem innerJoin_agrees (h : t.Variant t') {j j' : Plan.Junction} (labels : j.label = j'.label)
    {toChild toChild' : List Clause} (children : Clause.Variants toChild toChild') :
    Agree Alike (innerJoin t j toChild) (innerJoin t' j' toChild') := by
  unfold innerJoin
  rw [labels]
  cases h with
  | mk _ _ _ filters =>
    apply Agree.ite (by rw [filters.isEmpty])
    · intro _
      exact .pure (.refl none)
    · intro _
      apply (predicate_agrees _ children).bind
      intro on on' hOn
      exact .pure (congrArg (fun f => some (InnerJoin.mk t.name t.label f)) hOn)

variable {j j' : Plan.Junction}

theorem junctionPage_agrees {parent parent' : Table} (labels : parent.label = parent'.label)
    (h : t.Variant t') (linked : j.Variant j') {fromParent fromParent' toChild toChild' : List Clause}
    (parents : Clause.Variants fromParent fromParent') (children : Clause.Variants toChild toChild') :
    Agree Alike (junctionPage fl parent t j fromParent toChild)
      (junctionPage fl parent' t' j' fromParent' toChild') := by
  apply (supportedPaging_agrees fl h true).bind
  intro p p' same
  have inner : Agree Alike (innerJoin t j toChild) (innerJoin t' j' toChild') := by
    cases linked
    exact innerJoin_agrees h rfl children
  rw [labels]
  cases linked with
  | mk _ _ links _ =>
    cases h with
    | mk _ _ _ filters =>
      apply (filter_agrees _ parents).bind
      intro joined joined' hJoined
      apply (filter_agrees _ links).bind
      intro linked linked' hLinked
      apply (filter_agrees _ filters).bind
      intro own own' hOwn
      apply (cursorCondition_agrees same).bind
      intro past past' hPast
      apply inner.bind
      intro i i' hInner
      apply (predicate_agrees _ parents).bind
      intro on on' hOn
      have conditions := ((hJoined.append hLinked).append hOwn).append hPast
      have page := Alike.pageOf same j.table j.label hInner conditions
      exact .pure (page.lateral true hOn).one

theorem junctionBatchPage_agrees (h : t.Variant t') (linked : j.Variant j') (keys : Plan.Batch)
    (length : vs.length = ws.length) {join join' : List Clause}
    (joins : Clause.Variants join join') :
    Agree Alike (junctionBatchPage fl t j keys vs join) (junctionBatchPage fl t' j' keys ws join') := by
  apply (supportedPaging_agrees fl h true).bind
  intro p p' same
  apply (scopeTable_agrees _ length).bind
  intro from_ from' hFrom
  have inner : Agree Alike (innerJoin t j join) (innerJoin t' j' join') := by
    cases linked
    exact innerJoin_agrees h rfl joins
  cases linked with
  | mk _ _ links _ =>
    cases h with
    | mk _ _ _ filters =>
      apply (filter_agrees _ links).bind
      intro linked linked' hLinked
      apply (filter_agrees _ filters).bind
      intro own own' hOwn
      apply (cursorCondition_agrees same).bind
      intro past past' hPast
      apply inner.bind
      intro i i' hInner
      apply (predicate_agrees _ joins).bind
      intro child child' hChild
      have on := Alike.refl (correlation j.label keys)
      have conditions := ((on.cons hLinked).append hOwn).append hPast
      have page := Alike.pageOf same j.table j.label hInner conditions
      exact .pure (hFrom.cons
        ((page.lateral true on).cons (hChild.leftJoin t.name t.label true).one))

end Pages

section Parts

variable {parent parent' : Option Table} {t t' : Table} {scope scope' : Option (List Value)}

/-- The tables above a table's place in two plans. -/
abbrev SameParents (parent parent' : Option Table) : Prop :=
  Option.Rel Table.Variant parent parent'

/-- As many keys in two scopes, if there are any. -/
abbrev SameKeys (scope scope' : Option (List Value)) : Prop :=
  Option.Rel (fun vs ws => vs.length = ws.length) scope scope'

theorem isBatch_eq (h : t.Variant t') : t.isBatch = t'.isBatch := by
  cases h with
  | mk _ _ junctions _ =>
    unfold Table.isBatch Table.junctionBatch?
    generalize t.junction = j at junctions
    cases junctions with
    | none => rfl
    | @some j _ same =>
      cases same with
      | mk _ _ _ batches =>
        change (t.batch.isSome || j.batch.isSome) = (t.batch.isSome || Option.isSome _)
        generalize j.batch = b at batches
        cases batches <;> rfl

theorem continues_eq (above : SameParents parent parent') (h : t.Variant t') :
    continues parent t = continues parent' t' := by
  unfold continues
  rw [isBatch_eq h]
  cases above <;> rfl

theorem tableOrder_eq (h : t.Variant t') (backward : Bool) :
    tableOrder t backward = tableOrder t' backward := by
  cases h with
  | mk _ _ junctions _ =>
    unfold tableOrder
    generalize t.junction = j at junctions
    cases junctions with
    | none => rfl
    | some same =>
      cases same
      rfl

theorem tableFilter_agrees (above : SameParents parent parent') (h : t.Variant t') :
    Agree Alike (tableFilter parent t) (tableFilter parent' t') := by
  have batch := isBatch_eq h
  unfold tableFilter
  cases h with
  | @mk _ _ _ clauses _ _ junctions filters =>
    have own {fs gs : List Fragment} (linked : Alike fs gs) :
        Agree Alike (do return fs ++ (← filter (.ofTable t.label) t.filter))
          (do return gs ++ (← filter (.ofTable t.label) clauses)) := by
      apply (filter_agrees _ filters).bind
      intro own own' hOwn
      exact .pure (linked.append hOwn)
    apply Agree.ite
    · rw [batch]
      cases above <;> rfl
    · intro _
      exact .pure (.refl [])
    · intro _
      generalize t.junction = j at junctions
      cases junctions with
      | none => exact own (.refl [])
      | some same =>
        cases same with
        | mk _ _ links _ =>
          apply (filter_agrees _ links).bind
          intro linked linked' hLinked
          exact own hLinked

theorem orderPart_agrees (above : SameParents parent parent') (h : t.Variant t') :
    Agree (fun x y => x = y) (orderPart parent t) (orderPart parent' t') := by
  unfold orderPart
  rw [continues_eq above h]
  apply Agree.ite Iff.rfl
  · intro _
    exact .pure rfl
  · intro _
    have paginate : t.paginate = t'.paginate := by
      cases h
      rfl
    apply Agree.ite (by rw [paginate])
    · intro _
      apply (getPaging_agrees h).bind
      intro p p' same
      apply Agree.pure
      rw [tableOrder_eq h]
      cases same <;> rfl
    · intro _
      exact .pure (tableOrder_eq h false)

theorem Alike.tables {x y : List TableItem} {fs gs : List Fragment} (h : Alike x y)
    (conditions : Alike fs gs) (orders : List OrderTerm) :
    Alike (⟨[], x, fs, orders⟩ : Part) ⟨[], y, gs, orders⟩ := by
  change Part.mk _ _ _ _ = Part.mk _ _ _ _
  rw [h, conditions]

theorem Alike.tablesOnly {x y : List TableItem} (h : Alike x y) :
    Alike (tablesOnly x) (tablesOnly y) := h.tables (.refl []) []

variable (fl : Flavor) (path : List String)

theorem joinPart_agrees (above : SameParents parent parent') (h : t.Variant t')
    {join join' : List Clause} (joins : Clause.Variants join join') :
    Agree Alike (joinPart fl parent t join) (joinPart fl parent' t' join') := by
  cases above with
  | none => exact .throw _ _
  | @some p p' same =>
    have labels : p.label = p'.label := by
      cases same
      rfl
    have page := joinedPage_agrees fl labels h joins
    simp only [joinPart]
    rw [labels]
    cases h with
    | mk _ _ _ _ =>
      apply Agree.ite Iff.rfl
      · intro _
        apply page.bind
        intro items items' hItems
        exact .pure hItems.tablesOnly
      · intro _
        apply (predicate_agrees _ joins).bind
        intro on on' hOn
        exact .pure (hOn.leftJoin t.name t.label false).one.tablesOnly

theorem parentKey_alike (above : t.Variant t') (key : Plan.BatchKey) :
    Alike (parentKey t path key) (parentKey t' path key) := by
  cases above
  exact .refl _

theorem requireScope_agrees (t t' : Table) (keys : SameKeys scope scope') :
    Agree (fun vs ws => vs.length = ws.length) (liftM (requireScope t scope) : Binder (List Value))
      (liftM (requireScope t' scope')) := by
  apply Agree.lift
  intro vs ws found found'
  cases keys with
  | none => cases found
  | some length =>
    cases found
    cases found'
    exact length

theorem batchPart_agrees (above : SameParents parent parent') (keys : SameKeys scope scope')
    (h : t.Variant t') (b : Plan.Batch) :
    Agree Alike (batchPart fl parent path scope t b) (batchPart fl parent' path scope' t' b) := by
  cases above with
  | some same => exact .pure (parentKey_alike path same b.parentKey)
  | none =>
    simp only [batchPart]
    apply (requireScope_agrees t t' keys).bind
    intro vs ws length
    have page := batchPage_agrees fl h b length
    cases h with
    | mk _ _ _ _ =>
      apply Agree.ite Iff.rfl
      · intro _
        apply page.bind
        intro items items' hItems
        exact .pure hItems.tablesOnly
      · intro _
        apply (membership_agrees _ length).bind
        intro within within' hWithin
        exact .pure ((Alike.refl [TableItem.base t.name t.label]).tables hWithin.one [])

theorem rootPart_agrees (above : SameParents parent parent') (h : t.Variant t') :
    Agree Alike (rootPart fl parent t) (rootPart fl parent' t') := by
  cases above with
  | some same => exact .throw _ _
  | none =>
    have page := rootPage_agrees fl h
    simp only [rootPart, Option.isSome_none, Bool.false_eq_true, if_false]
    cases h with
    | mk _ _ _ _ =>
      apply Agree.ite Iff.rfl
      · intro _
        apply page.bind
        intro items items' hItems
        exact .pure hItems.tablesOnly
      · intro _
        exact .pure (.refl _)

section Junctions

variable {j j' : Plan.Junction}

theorem junctionBatchPart_agrees (above : SameParents parent parent')
    (keys : SameKeys scope scope') (h : t.Variant t') (linked : j.Variant j')
    {b b' : Plan.JunctionBatch} (batches : b.Variant b') :
    Agree Alike (junctionBatchPart fl parent path scope t j b)
      (junctionBatchPart fl parent' path scope' t' j' b') := by
  cases batches with
  | mk joins =>
    cases above with
    | some same => exact .pure (parentKey_alike path same b.keys.parentKey)
    | none =>
      simp only [junctionBatchPart]
      generalize b.join = join at joins
      cases joins with
      | none => exact .throw _ _
      | some clauses =>
        apply (requireScope_agrees t t' keys).bind
        intro vs ws length
        have page := junctionBatchPage_agrees fl h linked b.keys length clauses
        cases linked with
        | mk _ _ _ _ =>
          cases h with
          | mk _ _ _ _ =>
            apply Agree.ite Iff.rfl
            · intro _
              apply page.bind
              intro items items' hItems
              exact .pure hItems.tablesOnly
            · intro _
              apply (predicate_agrees _ clauses).bind
              intro on on' hOn
              apply (membership_agrees _ length).bind
              intro within within' hWithin
              have child := hOn.leftJoin t.name t.label true
              have tables := (Alike.refl (TableItem.base j.table j.label)).cons child.one
              exact .pure (tables.tables hWithin.one [])

/-- Children joined to the rows of a junction. -/
theorem childJoin_agrees (junction : String) (t : Table) {c c' : List Clause}
    (children : Clause.Variants c c') {x y : List TableItem} (link : Alike x y) :
    Agree Alike
      (do
        let on ← predicate (.ofJoin junction t.label) c
        return tablesOnly (x ++ [.leftJoin t.name t.label false on]))
      (do
        let on ← predicate (.ofJoin junction t.label) c'
        return tablesOnly (y ++ [.leftJoin t.name t.label false on])) := by
  apply (predicate_agrees _ children).bind
  intro on on' hOn
  exact .pure (link.append (hOn.leftJoin t.name t.label false).one).tablesOnly

theorem junctionPart_agrees (above : SameParents parent parent') (h : t.Variant t')
    (linked : j.Variant j') :
    Agree Alike (junctionPart fl parent t j) (junctionPart fl parent' t' j') := by
  cases above with
  | none => exact .throw _ _
  | @some p p' same =>
    have labels : p.label = p'.label := by
      cases same
      rfl
    have page {c c' d d' : List Clause} (parents : Clause.Variants c c')
        (children : Clause.Variants d d') := junctionPage_agrees fl labels h linked parents children
    simp only [junctionPart]
    rw [labels]
    cases linked with
    | mk parents children _ _ =>
      generalize j.fromParent = from_ at parents
      generalize j.toChild = to_ at children
      cases parents with
      | none => exact .throw _ _
      | some parents =>
        cases children with
        | none => exact .throw _ _
        | some children =>
          have whole := page parents children
          cases h with
          | mk _ _ _ _ =>
            apply Agree.ite Iff.rfl
            · intro _
              apply whole.bind
              intro link link' hLink
              exact childJoin_agrees j.label t children hLink
            · intro _
              apply (predicate_agrees _ parents).bind
              intro on on' hOn
              exact childJoin_agrees j.label t children (hOn.leftJoin j.table j.label false).one

end Junctions

theorem relationPart_agrees (above : SameParents parent parent') (keys : SameKeys scope scope')
    (h : t.Variant t') : Agree Alike (relationPart fl parent path scope t)
      (relationPart fl parent' path scope' t') := by
  have joined (c c' : List Clause) (same : Clause.Variants c c') := joinPart_agrees fl above h same
  have linkedBy (j j' : Plan.Junction) (same : j.Variant j') := junctionPart_agrees fl above h same
  have batchLinked (j j' : Plan.Junction) (same : j.Variant j') (b b' : Plan.JunctionBatch)
      (batch : b.Variant b') := junctionBatchPart_agrees fl path above keys h same batch
  have batched := batchPart_agrees fl path above keys h
  have root := rootPart_agrees fl above h
  unfold relationPart
  cases h with
  | mk _ joins junctions _ =>
    generalize t.join = join at joins
    cases joins with
    | some clauses => exact joined _ _ clauses
    | none =>
      generalize t.junction = junction at junctions
      cases junctions with
      | @some j _ same =>
        have byBatch := batchLinked j _ same
        have byRow := linkedBy j _ same
        cases same with
        | mk _ _ _ batches =>
          dsimp only
          generalize hb : j.batch = batch at batches
          cases batches with
          | some batch => exact byBatch _ _ batch
          | none => exact byRow
      | none =>
        cases hb : t.batch with
        | some b => exact batched b
        | none => exact root

theorem tablePart_agrees (above : SameParents parent parent') (keys : SameKeys scope scope')
    (h : t.Variant t') : Agree Alike (tablePart fl parent path scope t)
      (tablePart fl parent' path scope' t') := by
  apply (tableFilter_agrees above h).bind
  intro conditions conditions' hConditions
  apply (orderPart_agrees above h).bind
  rintro orders _ rfl
  apply (relationPart_agrees fl path above keys h).bind
  intro relation relation' hRelation
  exact .pure (((Alike.refl []).tables hConditions orders).part hRelation)

end Parts

section Nodes

variable (fl : Flavor)

mutual

theorem nodePart_agrees {parent parent' : Option Table} (above : SameParents parent parent')
    (path : List String) {scope scope' : Option (List Value)} (keys : SameKeys scope scope') :
    (n : Node) → {m : Node} → n.Variant m →
    Agree Alike (nodePart fl parent path scope n) (nodePart fl parent' path scope' m)
  | .table t cs, .table t' ds, .table same below => by
    have label : t'.label = t.label := by
      cases same
      rfl
    rw [nodePart, nodePart]
    apply (tablePart_agrees fl path above keys same).bind
    intro here here' hHere
    apply Agree.ite (by rw [continues_eq above same])
    · intro _
      rw [label]
      apply (childrenPart_agrees same (path ++ [t.label]) cs below).bind
      intro rest rest' hRest
      exact .pure (hHere.part hRest)
    · intro _
      exact .pure hHere
  | .column c, _, .column _ => by
    cases above with
    | none => exact .throw _ _
    | some same =>
      cases same
      exact .pure (.refl _)
  | .composite c, _, .composite _ => by
    cases above with
    | none => exact .throw _ _
    | some same =>
      cases same
      exact .pure (.refl _)
  | .noop _ _, _, .noop _ _ => .pure (.refl _)

theorem childrenPart_agrees {parent parent' : Table} (above : parent.Variant parent')
    (path : List String) : (ns : List Node) → {ms : List Node} → Node.Variants ns ms →
    Agree Alike (childrenPart fl parent path ns) (childrenPart fl parent' path ms)
  | [], _, .nil => .pure (.refl _)
  | n :: ns, _, .cons first rest => by
    rw [childrenPart, childrenPart]
    apply (nodePart_agrees (.some above) path .none n first).bind
    intro here here' hHere
    apply (childrenPart_agrees above path ns rest).bind
    intro later later' hLater
    exact .pure (hHere.part hLater)

end

end Nodes

theorem text_of_alike (fl : Flavor) {f g : Fragment} (h : Alike f g) :
    Fragment.text fl f = Fragment.text fl g := by
  have blanked (f : Fragment) : Fragment.text fl (map Token.blank f) = Fragment.text fl f := by
    induction f with
    | nil => rfl
    | cons t f inductionHypothesis =>
      rw [map_cons, Fragment.text_cons, Fragment.text_cons, inductionHypothesis, map_token,
        Token.text_blank]
  rw [← blanked f, ← blanked g, h]

/-- Plans that differ in values only, for as many keys, have statements of one text, and their
parameters have the same names in the same order. -/
theorem compile_variants {fl : Flavor} {n m : Node} (same : n.Variant m)
    {scope scope' : Option (List Value)} (keys : SameKeys scope scope') {q q' : Query}
    (compiled : compile fl n scope = .ok q) (compiled' : compile fl m scope' = .ok q') :
    q.sql = q'.sql ∧ Fields.names q.params.entries = Fields.names q'.params.entries := by
  obtain ⟨⟨part, ps⟩, stated, rfl⟩ := map_eq_ok.mp compiled
  obtain ⟨⟨part', ps'⟩, stated', rfl⟩ := map_eq_ok.mp compiled'
  obtain ⟨_, _, _, _, _, plain⟩ := statement_stands stated
  obtain ⟨_, _, _, _, _, plain'⟩ := statement_stands stated'
  obtain ⟨_, _, ran⟩ := statement_ok.mp stated
  obtain ⟨_, _, ran'⟩ := statement_ok.mp stated'
  obtain ⟨alike, names⟩ := nodePart_agrees fl .none [] keys n same _ _ _ _ _ _ rfl ran ran'
  have tokens : Alike (part.tokens fl) (part'.tokens fl) := by
    rw [Alike, Part.map_tokens blank_fixesPlain plain, Part.map_tokens blank_fixesPlain plain', alike]
  constructor
  · calc Statement.sql fl ⟨part, ps⟩
        = Fragment.text fl (part.tokens fl) := (Part.text_tokens part ps).symm
      _ = Fragment.text fl (part'.tokens fl) := text_of_alike fl tokens
      _ = Statement.sql fl ⟨part', ps'⟩ := Part.text_tokens part' ps'
  · exact names

theorem authorsNode_variant {v w : Value} (null : v.isNull = w.isNull) {vs ws : List Value}
    (length : vs.length = ws.length) {a b : Arguments} (given : Plan.SameArguments true a b) :
    (authorsNode v vs a).Variant (authorsNode w ws b) := by
  have unchanged : Plan.SameArguments false Arguments.empty Arguments.empty := fun _ => .inl rfl
  have names := Condition.Variant.compare ⟨.this, "name"⟩ .like null
  have years := Condition.Variant.compare ⟨.this, "year"⟩ .lt (Eq.refl (Value.int 1900).isNull)
  have linked := Condition.Variant.compareColumns ⟨.parent, "id"⟩ .eq ⟨.child, "author"⟩
  have spoken := Condition.Variant.within ⟨.child, "language"⟩ length
  apply Node.Variant.table
  · exact .mk _ unchanged .none .none (.cons .and false names .nil)
  · apply Node.Variants.cons _ .nil
    apply Node.Variant.table _ .nil
    exact .mk _ given (.some (.cons .and false linked (.cons .and false spoken .nil))) .none
      (.cons .and false years .nil)

/-- A text that would end a string in SQL is bound as any other. -/
theorem compile_variants_authors : ∃ q q',
    compile .postgresql
      (authorsNode (.text "A%") [.text "en", .text "fr"] ⟨[("first", .int 2)]⟩) none = .ok q ∧
    compile .postgresql
      (authorsNode (.text "x' OR 'x") [.null, .int 7] ⟨[("first", .int 2)]⟩) none = .ok q' ∧
    q.sql = q'.sql ∧ Fields.names q.params.entries = Fields.names q'.params.entries := by
  have same : (authorsNode (.text "A%") [.text "en", .text "fr"] ⟨[("first", .int 2)]⟩).Variant
      (authorsNode (.text "x' OR 'x") [.null, .int 7] ⟨[("first", .int 2)]⟩) :=
    authorsNode_variant (by rfl) (by rfl) (fun _ => .inl rfl)
  generalize hn : authorsNode (.text "A%") _ _ = n at same ⊢
  generalize hm : authorsNode (.text "x' OR 'x") _ _ = m at same ⊢
  have compiles : (∃ q, compile .postgresql n none = .ok q) ∧
      ∃ q, compile .postgresql m none = .ok q := by
    subst hn hm
    exact ⟨⟨_, rfl⟩, ⟨_, rfl⟩⟩
  obtain ⟨⟨q, compiled⟩, ⟨q', compiled'⟩⟩ := compiles
  exact ⟨q, q', compiled, compiled', compile_variants same .none compiled compiled'⟩

end TreeQuery.Sql
