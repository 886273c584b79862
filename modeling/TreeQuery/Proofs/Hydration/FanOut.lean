import TreeQuery.Batch
import TreeQuery.Proofs.Hydration.Complete

/-!
A chain of left joins writes a tree of objects as flat rows. An object has a row for every
combination of the rows of its nested objects, so each of these comes back in many rows, and not
next to each other. Hydration reads the tree back: it sees no more of the rows than the distinct
ones, and those of a nested table are, in order of first appearance, the rows of its own objects.
-/

namespace TreeQuery

open Hydration (Identity keyOf isMatched groupsOf matchedKeys values fieldsOf valueOf)

namespace Shape

mutual

/-- The fields of each level have different names. -/
def WellNamed : Shape → Prop
  | .mk fields => (fields.map Prod.fst).Nodup ∧ WellNamedIn fields

def WellNamedIn : List (String × ShapeField) → Prop
  | [] => True
  | (_, f) :: r => WellNamedOf f ∧ WellNamedIn r

def WellNamedOf : ShapeField → Prop
  | .column _ _ => True
  | .nested s _ => WellNamed s

end

/-- The keys of an object's identity fields. -/
def identityIn : List (String × ShapeField) → Fields Value → Identity
  | [], _ => []
  | (n, .column _ true) :: r, o => (o.valueAt n).key? :: identityIn r o
  | _ :: r, o => identityIn r o

mutual

/-- Objects of a shape. Siblings differ in identity, and none is null in all of it. -/
def Holds : Shape → List (Fields Value) → Prop
  | .mk fields, os => (os.map (identityIn fields)).Nodup ∧
      ∀ o ∈ os, o.names = fields.map Prod.fst ∧ isMatched (identityIn fields o) ∧ HoldsIn fields o

def HoldsIn : List (String × ShapeField) → Fields Value → Prop
  | [], _ => True
  | (n, f) :: r, o => HoldsOf f (o.valueAt n) ∧ HoldsIn r o

/-- Any value in a column, a list of objects for many, and an object or null for one. -/
def HoldsOf : ShapeField → Value → Prop
  | .column _ _, _ => True
  | .nested s true, v => ∃ os, v = .list (os.map .object) ∧ Holds s os
  | .nested s false, v => v = .null ∨ ∃ o, v = .object o ∧ Holds s [o]

end

def nullRow (s : Shape) : Fields Value := s.labels.map (fun a => (a, .null))

mutual

/-- The cells of the rows of some objects, one object after the other. -/
def rowsOf : Shape → List (Fields Value) → List (Fields Value)
  | .mk fields, os => os.flatMap (objectRows fields)

/-- A row for every combination of the rows of the fields, earlier fields changing slowest. -/
def objectRows : List (String × ShapeField) → Fields Value → List (Fields Value)
  | [], _ => [[]]
  | (n, f) :: r, o =>
    (fieldRows f (o.valueAt n)).flatMap (fun a => (objectRows r o).map (fun b => a ++ b))

/-- A nested table without objects still has a row, which is null throughout. -/
def fieldRows : ShapeField → Value → List (Fields Value)
  | .column a _, v => [[(a, v)]]
  | .nested s _, v => match rowsOf s v.objects with
    | [] => [nullRow s]
    | c :: cs => c :: cs

end

end Shape

namespace Row

/-- The row with just the columns of some labels. -/
def restrict (labels : List String) (r : Row) : Row := ⟨labels.map (fun a => (a, r.value a))⟩

theorem value_restrict {labels : List String} {a : String} (h : a ∈ labels) (r : Row) :
    (r.restrict labels).value a = r.value a := by
  induction labels with
  | nil => simp at h
  | cons b labels ih =>
    by_cases hb : b = a
    · simp [restrict, value, Fields.valueAt, Fields.get?_cons, hb]
    · have later := ih ((List.mem_cons.mp h).resolve_left (Ne.symm hb))
      simpa [restrict, value, Fields.valueAt, Fields.get?_cons, hb] using later

theorem restrict_restrict {labels labels' : List String} (h : labels' ⊆ labels) (r : Row) :
    (r.restrict labels).restrict labels' = r.restrict labels' := by
  simp only [restrict, Row.mk.injEq]
  apply List.map_congr_left
  intro a ha
  exact congrArg (a, ·) (value_restrict (h ha) r)

theorem keyOf_restrict {labels ids : List String} (h : ids ⊆ labels) (r : Row) :
    keyOf ids (r.restrict labels) = keyOf ids r := by
  apply List.map_congr_left
  intro a ha
  rw [value_restrict (h ha)]

theorem value_append_left {a b : Fields Value} {n : String} (h : n ∈ a.names) :
    Row.value ⟨a ++ b⟩ n = Row.value ⟨a⟩ n := by
  simp [value, Fields.valueAt, Fields.get?_append, h]

theorem value_append_right {a b : Fields Value} {n : String} (h : n ∉ a.names) :
    Row.value ⟨a ++ b⟩ n = Row.value ⟨b⟩ n := by
  simp [value, Fields.valueAt, Fields.get?_append, h]

theorem restrict_append_left {labels : List String} {a b : Fields Value} (h : a.names = labels) :
    restrict labels ⟨a ++ b⟩ = restrict labels ⟨a⟩ := by
  simp only [restrict, Row.mk.injEq]
  apply List.map_congr_left
  intro n hn
  rw [value_append_left (h ▸ hn)]

theorem restrict_append_right {labels : List String} {a b : Fields Value}
    (h : labels.Disjoint a.names) : restrict labels ⟨a ++ b⟩ = restrict labels ⟨b⟩ := by
  simp only [restrict, Row.mk.injEq]
  apply List.map_congr_left
  intro n hn
  rw [value_append_right (h hn)]

end Row

/-- Up to repeats, the rows are the same in the columns of some labels. -/
def SameRows (labels : List String) (rows rows' : List Row) : Prop :=
  SameFirsts (rows.map (Row.restrict labels)) (rows'.map (Row.restrict labels))

namespace SameRows

variable {labels : List String} {rows rows' : List Row}

theorem mono {labels' : List String} (h : SameRows labels rows rows') (hl : labels' ⊆ labels) :
    SameRows labels' rows rows' := by
  have restricted := SameFirsts.map h (Row.restrict labels')
  simp only [List.map_map, Function.comp_def, Row.restrict_restrict hl] at restricted
  exact restricted

theorem keys {ids : List String} (h : SameRows labels rows rows') (hi : ids ⊆ labels) :
    SameFirsts (rows.map (keyOf ids)) (rows'.map (keyOf ids)) := by
  have restricted := SameFirsts.map h (keyOf ids)
  simp only [List.map_map, Function.comp_def, Row.keyOf_restrict hi] at restricted
  exact restricted

theorem filter {ids : List String} (h : SameRows labels rows rows') (hi : ids ⊆ labels)
    (k : Identity) : SameRows labels (rows.filter (fun r => keyOf ids r = k))
      (rows'.filter (fun r => keyOf ids r = k)) := by
  have kept := SameFirsts.filter h (fun r => decide (keyOf ids r = k))
  simp only [List.filter_map, Function.comp_def, Row.keyOf_restrict hi] at kept
  exact kept

theorem head_value {a : String} (h : SameRows labels rows rows') (ha : a ∈ labels) :
    rows.head?.map (fun r => r.value a) = rows'.head?.map (fun r => r.value a) := by
  have first := congrArg (Option.map (fun r => Row.value r a)) (SameFirsts.head?_eq h)
  simp only [List.head?_map, Option.map_map, Function.comp_def, Row.value_restrict ha] at first
  exact first

end SameRows

namespace Shape

mutual

theorem names_of_mem_rowsOf : (s : Shape) → {os : List (Fields Value)} → {c : Fields Value} →
    c ∈ rowsOf s os → c.names = s.labels
  | .mk fields, os, c, h => by
    rw [rowsOf] at h
    obtain ⟨o, _, hc⟩ := List.mem_flatMap.mp h
    exact names_of_mem_objectRows fields hc

theorem names_of_mem_objectRows : (fields : List (String × ShapeField)) → {o c : Fields Value} →
    c ∈ objectRows fields o → c.names = labelsIn fields
  | [], o, c, h => by
    rw [objectRows] at h
    rw [List.mem_singleton.mp h]
    rfl
  | (n, f) :: r, o, c, h => by
    rw [objectRows] at h
    obtain ⟨a, ha, hc⟩ := List.mem_flatMap.mp h
    obtain ⟨b, hb, rfl⟩ := List.mem_map.mp hc
    rw [Fields.names_append, names_of_mem_fieldRows f ha, names_of_mem_objectRows r hb, labelsIn]

theorem names_of_mem_fieldRows : (f : ShapeField) → {v : Value} → {c : Fields Value} →
    c ∈ fieldRows f v → c.names = labelsOf f
  | .column a _, v, c, h => by
    rw [fieldRows] at h
    rw [List.mem_singleton.mp h]
    rfl
  | .nested s _, v, c, h => by
    rw [fieldRows] at h
    split at h
    · rw [List.mem_singleton.mp h, nullRow, labelsOf]
      simp [Fields.names, Function.comp_def]
    · rename_i hs
      exact names_of_mem_rowsOf s (hs ▸ h)

end

theorem fieldRows_ne_nil (f : ShapeField) (v : Value) : fieldRows f v ≠ [] := by
  cases f with
  | column a i => simp [fieldRows]
  | nested s many =>
    rw [fieldRows]
    split <;> simp

theorem objectRows_ne_nil (fields : List (String × ShapeField)) (o : Fields Value) :
    objectRows fields o ≠ [] := by
  induction fields with
  | nil => simp [objectRows]
  | cons p r ih =>
    obtain ⟨n, f⟩ := p
    obtain ⟨a, as, ha⟩ := List.exists_cons_of_ne_nil (fieldRows_ne_nil f (o.valueAt n))
    rw [objectRows, ha]
    simp [ih]

theorem keyOf_append_right {ids : List String} {a b : Fields Value} (h : ids.Disjoint a.names) :
    keyOf ids ⟨a ++ b⟩ = keyOf ids ⟨b⟩ := by
  apply List.map_congr_left
  intro n hn
  rw [Row.value_append_right (h hn)]

/-- Every row of an object has the object's identity. -/
theorem keyOf_of_mem_objectRows {fields : List (String × ShapeField)} {o c : Fields Value}
    (hl : (labelsIn fields).Nodup) (h : c ∈ objectRows fields o) :
    keyOf (identityOf fields) ⟨c⟩ = identityIn fields o := by
  induction fields generalizing c with
  | nil => rfl
  | cons p r ih =>
    obtain ⟨n, f⟩ := p
    rw [objectRows] at h
    obtain ⟨a, ha, hc⟩ := List.mem_flatMap.mp h
    obtain ⟨b, hb, rfl⟩ := List.mem_map.mp hc
    obtain ⟨_, hr, apart⟩ := List.nodup_append'.mp hl
    have later : keyOf (identityOf r) ⟨a ++ b⟩ = identityIn r o := by
      rw [keyOf_append_right, ih hr hb]
      rw [names_of_mem_fieldRows f ha]
      exact fun x hx hx' => apart hx' (identityOf_subset r hx)
    match f with
    | .nested s many => exact later
    | .column label false => exact later
    | .column label true =>
      rw [fieldRows] at ha
      have here : Row.value ⟨a ++ b⟩ label = o.valueAt n := by
        rw [List.mem_singleton.mp ha]
        simp [Row.value, Fields.valueAt, Fields.get?_cons]
      rw [identityOf, identityIn, keyOf, List.map_cons, here]
      exact congrArg _ later

/-- Siblings differ in identity, so the identity of one picks out its own rows. -/
theorem filter_rowsOf {fields : List (String × ShapeField)} {os : List (Fields Value)}
    {o : Fields Value} (hl : (labelsIn fields).Nodup)
    (hn : (os.map (identityIn fields)).Nodup) (ho : o ∈ os) :
    ((rowsOf (.mk fields) os).map Row.mk).filter
        (fun r => keyOf (identityOf fields) r = identityIn fields o) =
      (objectRows fields o).map Row.mk := by
  have own (p : Fields Value) (c : Fields Value) (hc : c ∈ objectRows fields p) :=
    keyOf_of_mem_objectRows hl hc
  rw [rowsOf]
  induction os with
  | nil => simp at ho
  | cons p os ih =>
    obtain ⟨fresh, hos⟩ := List.nodup_cons.mp hn
    rw [List.flatMap_cons, List.map_append, List.filter_append]
    rcases List.mem_cons.mp ho with rfl | later
    · have here : ((objectRows fields o).map Row.mk).filter
          (fun r => keyOf (identityOf fields) r = identityIn fields o) =
          (objectRows fields o).map Row.mk := by
        apply List.filter_eq_self.mpr
        intro r hr
        obtain ⟨c, hc, rfl⟩ := List.mem_map.mp hr
        exact decide_eq_true (own o c hc)
      have others : ((os.flatMap (objectRows fields)).map Row.mk).filter
          (fun r => keyOf (identityOf fields) r = identityIn fields o) = [] := by
        apply List.filter_eq_nil_iff.mpr
        intro r hr
        obtain ⟨c, hc, rfl⟩ := List.mem_map.mp hr
        obtain ⟨p, hp, hcp⟩ := List.mem_flatMap.mp hc
        rw [own p c hcp, decide_eq_true_eq]
        exact fun e => fresh (e ▸ List.mem_map_of_mem hp)
      rw [here, others, List.append_nil]
    · have before : ((objectRows fields p).map Row.mk).filter
          (fun r => keyOf (identityOf fields) r = identityIn fields o) = [] := by
        apply List.filter_eq_nil_iff.mpr
        intro r hr
        obtain ⟨c, hc, rfl⟩ := List.mem_map.mp hr
        rw [own p c hc, decide_eq_true_eq]
        exact fun e => fresh (e ▸ List.mem_map_of_mem later)
      rw [before, List.nil_append]
      exact ih hos later

/-- The identities of the rows are those of the objects, in order of first appearance. -/
theorem sameFirsts_keys_rowsOf {fields : List (String × ShapeField)}
    (hl : (labelsIn fields).Nodup) (os : List (Fields Value)) :
    SameFirsts (((rowsOf (.mk fields) os).map Row.mk).map (keyOf (identityOf fields)))
      (os.map (identityIn fields)) := by
  have each : ((rowsOf (.mk fields) os).map Row.mk).map (keyOf (identityOf fields)) =
      os.flatMap (fun o => (objectRows fields o).map (fun _ => identityIn fields o)) := by
    rw [rowsOf, List.map_map, List.map_flatMap]
    apply List.flatMap_congr
    intro o _
    apply List.map_congr_left
    intro c hc
    exact keyOf_of_mem_objectRows hl hc
  rw [each]
  exact sameFirsts_flatMap_left (fun o _ => objectRows_ne_nil fields o) _

/-- In the columns of its first field, the rows of an object are those of the field. -/
theorem sameRows_head {n : String} {f : ShapeField} {r : List (String × ShapeField)}
    (o : Fields Value) : SameRows (labelsOf f) ((objectRows ((n, f) :: r) o).map Row.mk)
      ((fieldRows f (o.valueAt n)).map Row.mk) := by
  have each : ((objectRows ((n, f) :: r) o).map Row.mk).map (Row.restrict (labelsOf f)) =
      (fieldRows f (o.valueAt n)).flatMap
        (fun a => (objectRows r o).map (fun _ => Row.restrict (labelsOf f) ⟨a⟩)) := by
    rw [objectRows, List.map_map, List.map_flatMap]
    apply List.flatMap_congr
    intro a ha
    rw [List.map_map]
    apply List.map_congr_left
    intro b _
    exact Row.restrict_append_left (names_of_mem_fieldRows f ha)
  rw [SameRows, each, List.map_map]
  exact sameFirsts_flatMap_left (fun _ _ => objectRows_ne_nil r o) _

/-- In the columns of its other fields, the rows of an object are those of the others. -/
theorem sameRows_tail {n : String} {f : ShapeField} {r : List (String × ShapeField)}
    (hl : (labelsOf f ++ labelsIn r).Nodup) (o : Fields Value) :
    SameRows (labelsIn r) ((objectRows ((n, f) :: r) o).map Row.mk)
      ((objectRows r o).map Row.mk) := by
  have apart := (List.nodup_append'.mp hl).2.2
  have each : ((objectRows ((n, f) :: r) o).map Row.mk).map (Row.restrict (labelsIn r)) =
      (fieldRows f (o.valueAt n)).flatMap
        (fun _ => ((objectRows r o).map Row.mk).map (Row.restrict (labelsIn r))) := by
    rw [objectRows, List.map_map, List.map_flatMap]
    apply List.flatMap_congr
    intro a ha
    rw [List.map_map, List.map_map]
    apply List.map_congr_left
    intro b _
    apply Row.restrict_append_right
    rw [names_of_mem_fieldRows f ha]
    exact fun x hx hx' => apart hx' hx
  rw [SameRows, each]
  exact sameFirsts_flatMap_right (fieldRows_ne_nil f _) _

theorem values_of_sameRows_nullRow {s : Shape} {rows : List Row}
    (h : SameRows s.labels rows [⟨nullRow s⟩]) : values s rows = [] := by
  obtain ⟨fields⟩ := s
  have keys := SameFirsts.filter (h.keys (identityOf_subset fields)) isMatched
  have null (a : String) : Row.value ⟨nullRow (.mk fields)⟩ a = .null := by
    rw [nullRow]
    induction (Shape.mk fields).labels with
    | nil => rfl
    | cons b labels ih =>
      by_cases hb : b = a
      · simp [Row.value, Fields.valueAt, Fields.get?_cons, hb]
      · simpa [Row.value, Fields.valueAt, Fields.get?_cons, hb] using ih
  have unmatched : isMatched (keyOf (identityOf fields) ⟨nullRow (.mk fields)⟩) = false := by
    simp [isMatched, keyOf, null, Value.key?]
  have none : distinct (matchedKeys (identityOf fields) rows) = [] := by
    refine (keys inferInstance).trans ?_
    simp [unmatched]
  rw [values, groupsOf, none]
  rfl

theorem holds_nil (s : Shape) : s.Holds [] := by
  obtain ⟨fields⟩ := s
  simp [Holds]

theorem rowsOf_eq_nil {s : Shape} {os : List (Fields Value)} (h : rowsOf s os = []) : os = [] := by
  obtain ⟨fields⟩ := s
  rw [rowsOf, List.flatMap_eq_nil_iff] at h
  apply List.eq_nil_iff_forall_not_mem.mpr
  intro o ho
  exact objectRows_ne_nil fields o (h o ho)

theorem itemObjects_map_object (os : List (Fields Value)) :
    Value.itemObjects (os.map .object) = os := by
  induction os with
  | nil => rfl
  | cons o os ih => simp [Value.itemObjects, Value.objects, ih]

/-- The row that stands for no object is dropped, and other rows are read back. -/
theorem values_of_fieldRows {s : Shape} {many : Bool} {v : Value} {rows : List Row}
    (read : SameRows s.labels rows ((s.rowsOf v.objects).map Row.mk) →
      values s rows = v.objects.map .object)
    (h : SameRows s.labels rows ((fieldRows (.nested s many) v).map Row.mk)) :
    values s rows = v.objects.map .object := by
  rw [fieldRows] at h
  split at h
  · rename_i none
    rw [rowsOf_eq_nil none]
    exact values_of_sameRows_nullRow h
  · rename_i some
    exact read (some ▸ h)

mutual

/-- Whatever rows are given, if up to repeats they are those of some objects, the objects are read
back. The rows of an object among them are again such rows for each of its nested tables. -/
theorem values_of_sameRows : (s : Shape) → {os : List (Fields Value)} → {rows : List Row} →
    s.labels.Nodup → s.WellNamed → s.Holds os → SameRows s.labels rows ((s.rowsOf os).map Row.mk) →
    values s rows = os.map .object
  | .mk fields, os, rows, hl, hw, ho, h => by
    obtain ⟨different, each⟩ := ho
    have keys := (h.keys (identityOf_subset fields)).trans (sameFirsts_keys_rowsOf hl os)
    have matched : distinct (matchedKeys (identityOf fields) rows) =
        os.map (identityIn fields) := by
      refine (SameFirsts.filter keys isMatched inferInstance).trans ?_
      have all : (os.map (identityIn fields)).filter isMatched = os.map (identityIn fields) := by
        apply List.filter_eq_self.mpr
        intro k hk
        obtain ⟨o, ho, rfl⟩ := List.mem_map.mp hk
        exact (each o ho).2.1
      rw [all, distinct_of_nodup different]
    rw [values, groupsOf, matched, List.map_map, List.map_map]
    apply List.map_congr_left
    intro o ho
    have own := h.filter (identityOf_subset fields) (identityIn fields o)
    rw [filter_rowsOf hl different ho] at own
    obtain ⟨names, _, held⟩ := each o ho
    have read := fieldsOf_of_sameRows fields hl hw.2 held own
    have ordered : fields.map (fun p => (p.1, o.valueAt p.1)) = o := by
      have named : o.names.Nodup := names ▸ hw.1
      have := Fields.map_valueAt named
      rw [names, List.map_map] at this
      exact this
    rw [ordered] at read
    simp only [Function.comp_apply, read]
    rw [Fields.ofPairs_of_nodup (names ▸ hw.1 : o.names.Nodup)]

theorem fieldsOf_of_sameRows : (fields : List (String × ShapeField)) → {o : Fields Value} →
    {rows : List Row} → (labelsIn fields).Nodup → WellNamedIn fields → HoldsIn fields o →
    SameRows (labelsIn fields) rows ((objectRows fields o).map Row.mk) →
    fieldsOf fields rows = fields.map (fun p => (p.1, o.valueAt p.1))
  | [], _, _, _, _, _, _ => rfl
  | (n, f) :: r, o, rows, hl, hw, ho, h => by
    obtain ⟨hf, hr, _⟩ := List.nodup_append'.mp hl
    have here := (h.mono (List.subset_append_left _ _)).trans (sameRows_head o)
    have rest := (h.mono (List.subset_append_right _ _)).trans (sameRows_tail hl o)
    rw [fieldsOf, valueOf_of_sameRows f hf hw.1 ho.1 here,
      fieldsOf_of_sameRows r hr hw.2 ho.2 rest, List.map_cons]

theorem valueOf_of_sameRows : (f : ShapeField) → {v : Value} → {rows : List Row} →
    (labelsOf f).Nodup → WellNamedOf f → HoldsOf f v →
    SameRows (labelsOf f) rows ((fieldRows f v).map Row.mk) → valueOf f rows = v
  | .column a _, v, rows, _, _, _, h => by
    rw [valueOf, h.head_value (by simp [labelsOf])]
    simp [fieldRows, Row.value, Fields.valueAt, Fields.get?_cons]
  | .nested s true, v, rows, hl, hw, hv, h => by
    obtain ⟨os, rfl, ho⟩ := hv
    have objects : Value.objects (.list (os.map .object)) = os := itemObjects_map_object os
    have read := values_of_fieldRows (fun same => by
      rw [objects] at same ⊢
      exact values_of_sameRows s hl hw ho same) h
    rw [objects] at read
    rw [valueOf, read]
    rfl
  | .nested s false, v, rows, hl, hw, hv, h => by
    have held : s.Holds v.objects := by
      rcases hv with rfl | ⟨o, rfl, ho⟩
      · exact holds_nil s
      · exact ho
    have read := values_of_fieldRows (values_of_sameRows s hl hw held) h
    rw [valueOf, read]
    rcases hv with rfl | ⟨o, rfl, _⟩ <;> rfl

end

theorem carry_rowsOf (s : Shape) (os : List (Fields Value)) :
    Hydration.Carry ((s.rowsOf os).map Row.mk) s.labels := by
  intro r hr
  obtain ⟨c, hc, rfl⟩ := List.mem_map.mp hr
  have columns : Row.columns ⟨c⟩ = s.labels := names_of_mem_rowsOf s hc
  rw [columns]
  exact List.Subset.refl _

/-- Hydration inverts the fan-out of joins. -/
theorem objects_rowsOf {s : Shape} {os : List (Fields Value)} (labels : s.labels.Nodup)
    (names : s.WellNamed) (held : s.Holds os) :
    Hydration.objects s ((s.rowsOf os).map Row.mk) = .ok (os.map .object) := by
  rw [Hydration.objects_eq s (carry_rowsOf s os)]
  exact congrArg _ (values_of_sameRows s labels names held (.refl _))

/-- Clubs with two lists side by side, of players who may wear a badge and of games. -/
def club : Shape := .mk
  [("id", .column "id" true),
    ("players", .nested (.mk
      [("id", .column "players__id" true),
        ("badge", .nested (.mk [("no", .column "players__badge__no" true)]) false)]) true),
    ("games", .nested (.mk
      [("id", .column "games__id" true), ("at", .column "games__at" false)]) true)]

def clubs : List (Fields Value) :=
  [[("id", .int 2), ("players", .list [.object [("id", .int 1), ("badge", .null)],
      .object [("id", .int 3), ("badge", .object [("no", .text "7")])]]),
      ("games", .list [.object [("id", .int 1), ("at", .null)],
        .object [("id", .int 2), ("at", .text "home")]])],
    [("id", .int 1), ("players", .list []), ("games", .list [])]]

/-- The first club is four rows, its players times its games, and the second is one. -/
example : (club.rowsOf clubs).map (fun c => (Row.mk c).value "games__id" |>.key?) =
    [some (.int 1), some (.int 2), some (.int 1), some (.int 2), none] := by rfl

theorem objects_rowsOf_clubs : club.labels.Nodup ∧ club.WellNamed ∧ club.Holds clubs ∧
    Hydration.objects club ((club.rowsOf clubs).map Row.mk) = .ok (clubs.map .object) := by
  have labels : club.labels.Nodup := by decide
  have names : club.WellNamed := by simp [club, WellNamed, WellNamedIn, WellNamedOf]
  have players : Holds (.mk [("id", .column "players__id" true),
      ("badge", .nested (.mk [("no", .column "players__badge__no" true)]) false)])
      [[("id", .int 1), ("badge", .null)],
        [("id", .int 3), ("badge", .object [("no", .text "7")])]] := by
    simp [Holds, HoldsIn, HoldsOf, identityIn, isMatched, Fields.names, Fields.valueAt,
      Fields.get?_cons, Value.key?]
  have games : Holds (.mk [("id", .column "games__id" true), ("at", .column "games__at" false)])
      [[("id", .int 1), ("at", .null)], [("id", .int 2), ("at", .text "home")]] := by
    simp [Holds, HoldsIn, HoldsOf, identityIn, isMatched, Fields.names, Fields.valueAt,
      Fields.get?_cons, Value.key?]
  have held : club.Holds clubs := by
    refine ⟨by decide, ?_⟩
    simp only [clubs, List.forall_mem_cons]
    refine ⟨⟨rfl, rfl, trivial, ⟨_, rfl, players⟩, ⟨_, rfl, games⟩, trivial⟩,
      ⟨rfl, rfl, trivial, ⟨[], rfl, holds_nil _⟩, ⟨[], rfl, holds_nil _⟩, trivial⟩, ?_⟩
    simp
  exact ⟨labels, names, held, objects_rowsOf labels names held⟩

end Shape

end TreeQuery
