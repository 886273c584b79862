import Mathlib.Data.List.Basic
import TreeQuery.Proofs.Cursor
import TreeQuery.Proofs.Json.Reading

/-!
Which cursors are accepted for a sort key: those that encode the text of a JSON object whose names
are just those of the key, with values that the types of the key convert. In what order the object
has its members, and what it said under a repeated name before the last time, does not count.
-/

namespace TreeQuery.Cursor

variable {cursor : String} {key : SortKey} {fields : Fields Value} {values : List Value}

/-- A cursor that encodes the text of a JSON object with these members, in their order and with
those under one name that come before the last. -/
def Holds (cursor : String) (members : List (String × Json)) : Prop :=
  ∃ text, cursor = Base64.encodeText text ∧ Json.parseMembers? text = some members

/-- Such a text is what the reader of values accepts as an object. -/
theorem holds_iff_object : (∃ members, Holds cursor members) ↔
    ∃ text stored, cursor = Base64.encodeText text ∧ Json.parse? text = some (.object stored) := by
  constructor
  · rintro ⟨members, text, encoded, read⟩
    exact ⟨text, _, encoded, Json.parse?_eq_object_iff.mpr ⟨members, read, rfl⟩⟩
  · rintro ⟨text, stored, encoded, read⟩
    obtain ⟨members, read, _⟩ := Json.parse?_eq_object_iff.mp read
    exact ⟨members, text, encoded, read⟩

theorem Holds.unique {members members' : List (String × Json)} (h : Holds cursor members)
    (h' : Holds cursor members') : members = members' := by
  obtain ⟨text, encoded, read⟩ := h
  obtain ⟨text', encoded', read'⟩ := h'
  have same := (decodeText_eq_ok_iff.mpr encoded).symm.trans (decodeText_eq_ok_iff.mpr encoded')
  cases same
  exact Option.some.inj (read.symm.trans read')

theorem toFields_eq_ok_iff : toFields cursor = .ok fields ↔ ∃ members, Holds cursor members ∧
    Fields.ofPairs (members.map (fun m => (m.1, Value.ofJson m.2))) = fields := by
  unfold toFields
  rw [bind_eq_ok]
  constructor
  · rintro ⟨text, decoded, read⟩
    split at read
    · cases read
    · rename_i members parsed
      cases read
      exact ⟨members, ⟨text, decodeText_eq_ok_iff.mp decoded, parsed⟩, rfl⟩
  · rintro ⟨members, ⟨text, encoded, parsed⟩, rfl⟩
    refine ⟨text, decodeText_eq_ok_iff.mpr encoded, ?_⟩
    rw [parsed]

theorem validate_eq_ok_iff :
    validate fields key = .ok () ↔ ∀ name, name ∈ Fields.names fields ↔ name ∈ key.names := by
  have contains (name : String) : Fields.contains fields name = true ↔ name ∈ fields.names :=
    Fields.isSome_get?
  unfold validate
  split
  · rename_i name extra
    obtain ⟨outside, among⟩ := List.find?_eq_some_iff_append.mp extra |>.imp_right
      (fun ⟨_, _, split, _⟩ => split ▸ List.mem_append_right _ (List.mem_cons_self ..))
    simp only [reduceCtorEq, false_iff]
    intro same
    simp [(same name).mp among] at outside
  rename_i extra
  split
  · rename_i name missing
    obtain ⟨absent, among⟩ := List.find?_eq_some_iff_append.mp missing |>.imp_right
      (fun ⟨_, _, split, _⟩ => split ▸ List.mem_append_right _ (List.mem_cons_self ..))
    simp only [reduceCtorEq, false_iff]
    intro same
    simp [(contains name).mpr ((same name).mpr among)] at absent
  · rename_i missing
    simp only [true_iff]
    intro name
    constructor
    · intro among
      simpa using List.find?_eq_none.mp extra name among
    · intro among
      exact (contains name).mp (by simpa using List.find?_eq_none.mp missing name among)

/-- The value of a column in some fields, under the type of the column. -/
def convertedField? (fields : Fields Value) (c : SortColumn) : Option Value :=
  c.type.convert? ((Fields.get? fields c.name).getD .null)

theorem takeColumns_eq_ok_iff (distinct : key.names.Nodup) : takeColumns fields key = .ok values ↔
    values.map some = key.map (convertedField? fields) := by
  induction key generalizing fields values with
  | nil => cases values <;> simp [takeColumns]
  | cons c key inductionHypothesis =>
    obtain ⟨fresh, distinct⟩ := List.nodup_cons.mp distinct
    -- Taking the first column leaves the others.
    have others : key.map (convertedField? (Fields.erase fields c.name)) =
        key.map (convertedField? fields) := by
      apply List.map_congr_left
      intro d among
      have other : c.name ≠ d.name := fun same => fresh (same ▸ List.mem_map_of_mem among)
      rw [convertedField?, convertedField?, Fields.get?_erase, if_neg other]
    rw [takeColumns, List.map_cons]
    split
    · rename_i refused
      have unconverted : convertedField? fields c = none := refused
      cases values <;> simp [unconverted]
    · rename_i w converted
      have made : convertedField? fields c = some w := converted
      rw [bind_eq_ok, made]
      constructor
      · rintro ⟨ws, taken, same⟩
        cases same
        rw [List.map_cons, (inductionHypothesis distinct).mp taken, others]
      · intro same
        obtain ⟨v, ws, rfl, here, later⟩ := List.map_eq_cons_iff.mp same
        cases here
        exact ⟨ws, (inductionHypothesis distinct).mpr (later.trans others.symm), rfl⟩

/-- The value of a column in an object: that of the last member of its name, under its type. -/
def memberValue? (members : List (String × Json)) (c : SortColumn) : Option Value :=
  (Fields.last? members c.name).bind (fun j => c.type.convert? (Value.ofJson j))

theorem convertedField?_ofPairs {members : List (String × Json)} {c : SortColumn}
    (among : c.name ∈ Fields.names members) :
    convertedField? (Fields.ofPairs (members.map (fun m => (m.1, Value.ofJson m.2)))) c =
      memberValue? members c := by
  rw [convertedField?, memberValue?, Fields.get?_ofPairs, Fields.last?_map]
  cases found : Fields.last? members c.name with
  | none => exact absurd among (Fields.last?_eq_none.mp found)
  | some j => rfl

/-- A cursor is accepted for a sort key if and only if it encodes the text of a JSON object that has
members of the key's names and of no others, and the type of each column converts the last of its
members. It then stands for these values in the order of the key. Every other cursor is refused as
an invalid cursor. -/
theorem toKeyset_eq_ok_iff (distinct : key.names.Nodup) (cursor : String) :
    ((∃ members, Holds cursor members) ↔ ∃ text stored, cursor = Base64.encodeText text ∧
      Json.parse? text = some (.object stored)) ∧
    (∀ values, toKeyset cursor key = .ok values ↔ ∃ members, Holds cursor members ∧
      (∀ name, name ∈ Fields.names members ↔ name ∈ key.names) ∧
      values.map some = key.map (memberValue? members)) ∧
    (∀ e, toKeyset cursor key = .error e → e.toError.isA .invalidCursor = true) := by
  have named {members : List (String × Json)} (name : String) :
      name ∈ Fields.names (Fields.ofPairs (members.map (fun m => (m.1, Value.ofJson m.2)))) ↔
        name ∈ Fields.names members := by
    rw [Fields.mem_names_ofPairs, Fields.names, List.map_map]
    rfl
  have read {members : List (String × Json)}
      (names : ∀ name, name ∈ Fields.names members ↔ name ∈ key.names) :
      key.map (convertedField? (Fields.ofPairs (members.map (fun m => (m.1, Value.ofJson m.2))))) =
        key.map (memberValue? members) := by
    apply List.map_congr_left
    intro c among
    exact convertedField?_ofPairs ((names c.name).mpr (List.mem_map_of_mem among))
  refine ⟨holds_iff_object, fun values => ?_, fun e _ => rfl⟩
  unfold toKeyset
  simp only [bind_eq_ok, toFields_eq_ok_iff, takeColumns_eq_ok_iff distinct]
  constructor
  · rintro ⟨fields, ⟨members, holds, rfl⟩, _, valid, taken⟩
    have names := validate_eq_ok_iff.mp valid
    simp only [named] at names
    exact ⟨members, holds, names, taken.trans (read names)⟩
  · rintro ⟨members, holds, names, taken⟩
    refine ⟨_, ⟨members, holds, rfl⟩, (), validate_eq_ok_iff.mpr ?_, taken.trans (read names).symm⟩
    simpa only [named] using names

theorem holds_text {members : List (String × Json)}
    (read : ∀ m ∈ members, Json.ReadsBack (Json.maxDepth - 1) m.2) :
    Holds (Base64.encodeText (Json.text (.object members))) members :=
  ⟨_, rfl, Json.parseMembers?_text read⟩

/-- Rows by the day and, on one day, by number. -/
def dailyKey : SortKey :=
  [⟨"created_at", "createdAt", .ascending, .any⟩, ⟨"id", "id", .descending, .int⟩]

/-- The names of the key in another order, one of them twice. -/
def shuffledMembers : List (String × Json) :=
  [("id", .bool true), ("createdAt", .array [.null, .string "2024"]), ("id", .string "+09")]

theorem readsBack_shuffled :
    ∀ m ∈ shuffledMembers, Json.ReadsBack (Json.maxDepth - 1) m.2 := by
  simp only [shuffledMembers, List.forall_mem_cons, List.not_mem_nil, false_implies, implies_true,
    and_true]
  refine ⟨Json.readsBack_bool true, ?_, Json.readsBack_string "+09"⟩
  apply Json.readsBack_array
  simp only [List.forall_mem_cons, List.not_mem_nil, false_implies, implies_true, and_true]
  exact ⟨Json.readsBack_null, Json.readsBack_string "2024"⟩

/-- The last number counts, and without the day the cursor is refused. -/
theorem toKeyset_shuffled :
    toKeyset (Base64.encodeText (Json.text (.object shuffledMembers))) dailyKey =
      .ok [.list [.null, .text "2024"], .int 9] ∧
    ∃ e, toKeyset (Base64.encodeText (Json.text (.object [("id", .null)]))) dailyKey = .error e ∧
      e.toError.isA .invalidCursor = true := by
  have distinct : dailyKey.names.Nodup := by decide
  obtain ⟨_, accepted, _⟩ :=
    toKeyset_eq_ok_iff distinct (Base64.encodeText (Json.text (.object shuffledMembers)))
  obtain ⟨_, accepted', refused⟩ :=
    toKeyset_eq_ok_iff distinct (Base64.encodeText (Json.text (.object [("id", .null)])))
  constructor
  · refine (accepted _).mpr ⟨shuffledMembers, holds_text readsBack_shuffled, ?_, rfl⟩
    intro name
    simp only [shuffledMembers, dailyKey, SortKey.names, Fields.names, List.map_cons, List.map_nil,
      List.mem_cons, List.not_mem_nil, or_false]
    constructor
    · rintro (rfl | rfl | rfl) <;> simp
    · rintro (rfl | rfl) <;> simp
  · cases result : toKeyset _ dailyKey with
    | error e => exact ⟨e, rfl, refused e result⟩
    | ok values =>
      obtain ⟨members, holds, names, _⟩ := (accepted' values).mp result
      obtain rfl := holds.unique (holds_text (by simp [Json.readsBack_null]))
      exact absurd ((names "createdAt").mpr (by decide)) (by decide)

end TreeQuery.Cursor
