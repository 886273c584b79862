import TreeQuery.Connection
import TreeQuery.Proofs.Avoidance
import TreeQuery.Proofs.Hydration.Complete
import TreeQuery.Proofs.Shape

/-!
Hydrated objects can be converted. A joined table's field holds what was hydrated for the table, a
list wherever a page is made of it.
-/

namespace TreeQuery

open Plan (Node Table)

namespace Connection

mutual

/-- A value that was hydrated for a table and is not converted yet. -/
def Fits : Node → Value → Prop
  | .table _ children, .list items => ∀ v ∈ items, FitsIn children v
  | .table _ children, .object fields => FitsIn children (.object fields)
  | _, v => v = .null

/-- A value whose fields fit the tables that are joined into them. -/
def FitsIn : List Node → Value → Prop
  | [], _ => True
  | .table t children :: r, v =>
    (t.isBatch = false → ∀ w, v.field? t.fieldName = some w → Fits (.table t children) w) ∧
      FitsIn r v
  | _ :: r, v => FitsIn r v

end

/-- The field of another table is not looked at. -/
theorem fitsIn_insert {nodes : List Node} {fields : Fields Value} {name : String} (w : Value)
    (h : FitsIn nodes (.object fields)) (hn : name ∉ Node.joinedNames nodes) :
    FitsIn nodes (.object (Fields.insert fields name w)) := by
  induction nodes with
  | nil => trivial
  | cons n nodes ih =>
    match n with
    | .table t children =>
      rw [Node.joinedNames_table] at hn
      rw [FitsIn] at h ⊢
      by_cases batch : t.isBatch
      · rw [if_pos batch] at hn
        exact ⟨fun joined => absurd batch (by simp [joined]), ih h.2 hn⟩
      · rw [if_neg batch, List.mem_cons, not_or] at hn
        refine ⟨fun joined u hu => h.1 joined u ?_, ih h.2 hn.2⟩
        simpa [Value.field?, Value.object?, Fields.get?_insert, hn.1] using hu
    | .column _ | .composite _ | .noop _ _ => exact ih h hn

/-- Not about the rows of a result. -/
def IsResult : ConnectionError → Prop
  | .paging _ => False
  | .result _ => True

theorem ofItems_avoids (t : Table) (items : List Value) : Avoids IsResult (ofItems t items) := by
  refine (Avoids.mapError (fun _ => id)).bind (fun p _ => ?_)
  cases p <;> exact Avoids.ok _

mutual

theorem convert_avoids : (n : Node) → n.Everywhere Table.JoinsApart → {v : Value} → Fits n v →
    Avoids IsResult (convert n v)
  | .table t children, apart, .null, h => by
    rw [convert]
    split <;> exact Avoids.ok _
  | .table t children, apart, .list items, h => by
    rw [convert]
    refine (Avoids.mapM (fun v hv => convertChildren_avoids children apart.1 apart.2 (h v hv))).bind
      (fun converted _ => ?_)
    split
    · exact ofItems_avoids t converted
    · exact Avoids.ok _
  | .table t children, apart, .object fields, h =>
    convertChildren_avoids children apart.1 apart.2 h
  | .table _ _, _, .bool _, h | .table _ _, _, .int _, h | .table _ _, _, .double _, h
  | .table _ _, _, .text _, h | .table _ _, _, .json _, h
  | .table _ _, _, .connection _ _ _, h => by cases h
  | .column _, _, _, _ | .composite _, _, _, _ | .noop _ _, _, _, _ => Avoids.ok _

theorem convertChildren_avoids : (nodes : List Node) → (Node.joinedNames nodes).Nodup →
    Node.EverywhereIn Table.JoinsApart nodes → {v : Value} → FitsIn nodes v →
    Avoids IsResult (convertChildren nodes v)
  | [], _, _, _, _ => Avoids.ok _
  | .table t children :: r, names, apart, v, h => by
    rw [Node.joinedNames_table] at names
    unfold convertChildren
    split
    · rename_i batch
      rw [if_pos batch] at names
      exact convertChildren_avoids r names apart.2 h.2
    rename_i joined
    rw [if_neg joined, List.nodup_cons] at names
    cases v with
    | object fields =>
      cases hw : Fields.get? fields t.fieldName with
      | none =>
        simp only [hw]
        exact convertChildren_avoids r names.2 apart.2 h.2
      | some w =>
        simp only [hw]
        have fits := h.1 (by simpa using joined) w hw
        refine (convert_avoids (.table t children) apart.1 fits).bind (fun w' _ => ?_)
        exact convertChildren_avoids r names.2 apart.2 (fitsIn_insert w' h.2 names.1)
    | null | bool _ | int _ | double _ | text _ | json _ | list _ | connection _ _ _ =>
      exact Avoids.ok _
  | .column _ :: r, names, apart, v, h | .composite _ :: r, names, apart, v, h
  | .noop _ _ :: r, names, apart, v, h => convertChildren_avoids r names apart.2 h

end

end Connection

namespace Shape

open Fields (last?)

theorem fieldsOf_eq_map (fields : List (String × ShapeField)) (rows : List Row) :
    Hydration.fieldsOf fields rows = fields.map (fun f => (f.1, Hydration.valueOf f.2 rows)) := by
  induction fields with
  | nil => rfl
  | cons f fields ih =>
    obtain ⟨n, f⟩ := f
    rw [Hydration.fieldsOf, ih, List.map_cons]

/-- An object holds under a name what its last field of that name reads. -/
theorem get?_fieldsOf (fields : List (String × ShapeField)) (rows : List Row) (n : String) :
    Fields.get? (Fields.ofPairs (Hydration.fieldsOf fields rows)) n =
      (last? fields n).map (fun f => Hydration.valueOf f rows) := by
  rw [Fields.get?_ofPairs, fieldsOf_eq_map]
  exact Fields.last?_map (fun f => Hydration.valueOf f rows) fields n

theorem object_of_mem_values {s : Shape} {rows : List Row} {v : Value}
    (h : v ∈ Hydration.values s rows) : ∃ o, v = .object o := by
  obtain ⟨fields⟩ := s
  obtain ⟨g, _, rfl⟩ := List.mem_map.mp h
  exact ⟨_, rfl⟩

open Connection (Fits FitsIn)

/-- All objects as a list, or the first one alone. -/
theorem fits_values {t : Table} {children : List Node} {s : Shape} {rows : List Row}
    (h : ∀ v ∈ Hydration.values s rows, FitsIn children v) (many : Bool) :
    Fits (.table t children) (if many then .list (Hydration.values s rows)
      else (Hydration.values s rows).headD .null) := by
  split
  · rw [Fits]
    exact h
  · cases hv : Hydration.values s rows with
    | nil => rfl
    | cons v vs =>
      have first : v ∈ Hydration.values s rows := by rw [hv]; exact List.mem_cons_self ..
      obtain ⟨o, rfl⟩ := object_of_mem_values first
      exact h _ first

mutual

/-- What is hydrated for a table fits the tables that are joined to it. -/
theorem fitsIn_values : (n : Node) → n.Everywhere Table.JoinsApart → {path : String} → {s : Shape} →
    ofNode path n = .ok s → (rows : List Row) → ∀ v ∈ Hydration.values s rows, FitsIn n.children v
  | .table t children, apart, path, s, h, rows, v, hv => by
    obtain ⟨fields, hf, _, rfl⟩ := ofNode_table_ok.mp h
    obtain ⟨g, _, rfl⟩ := List.mem_map.mp hv
    refine fitsIn_object children apart.2 g.2 (fun t below member joined => ?_)
    obtain ⟨s, hs, found⟩ := (last?_ofChildren hf apart.1).2 t below member joined
    exact ⟨_, s, hs, found⟩
  | .column _, _, _, _, h, _, _, _ | .composite _, _, _, _, h, _, _, _
  | .noop _ _, _, _, _, h, _, _, _ => by cases h

theorem fitsIn_object : (nodes : List Node) → Node.EverywhereIn Table.JoinsApart nodes →
    {fields : List (String × ShapeField)} → (rows : List Row) →
    (∀ t below, .table t below ∈ nodes → t.isBatch = false → ∃ inner s,
      ofNode inner (.table t below) = .ok s ∧
      last? fields t.fieldName = some (.nested s t.many)) →
    FitsIn nodes (.object (Fields.ofPairs (Hydration.fieldsOf fields rows)))
  | [], _, _, _, _ => trivial
  | .table t children :: r, apart, fields, rows, h => by
    refine ⟨fun joined w hw => ?_, fitsIn_object r apart.2 rows
      (fun u below hu => h u below (List.mem_cons_of_mem _ hu))⟩
    obtain ⟨inner, s, hs, found⟩ := h t children (List.mem_cons_self ..) joined
    have read := get?_fieldsOf fields rows t.fieldName
    rw [found] at read
    have value : w = Hydration.valueOf (.nested s t.many) rows := Option.some.inj (hw.symm.trans read)
    have fits := fitsIn_values (.table t children) apart.1 hs rows
    rw [value, Hydration.valueOf]
    exact fits_values fits t.many
  | .column _ :: r, apart, fields, rows, h | .composite _ :: r, apart, fields, rows, h
  | .noop _ _ :: r, apart, fields, rows, h =>
    fitsIn_object r apart.2 rows (fun u below hu => h u below (List.mem_cons_of_mem _ hu))

end

end Shape

end TreeQuery
