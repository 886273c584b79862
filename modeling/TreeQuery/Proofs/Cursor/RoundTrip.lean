import TreeQuery.Proofs.Cursor
import TreeQuery.Proofs.Json.Reading

/-!
Keyset cursors are read as what they were written from, down to the 126th level of nested lists.
The object of a cursor takes one of the 127 containers that a text may nest, so with one level more
the cursor is written and then refused.
-/

namespace TreeQuery

namespace Value

mutual

/-- How many lists stand inside each other. -/
def levels : Value → Nat
  | .list items => levelsIn items + 1
  | _ => 0

def levelsIn : List Value → Nat
  | [] => 0
  | v :: r => max (levels v) (levelsIn r)

end

mutual

/-- Made of nulls, truth values, integers, texts and lists. -/
def isPlain : Value → Bool
  | .null | .bool _ | .int _ | .text _ => true
  | .list items => allPlain items
  | _ => false

def allPlain : List Value → Bool
  | [] => true
  | v :: r => isPlain v && allPlain r

end

mutual

theorem ofJson_document_plain : (v : Value) → v.isPlain = true → ofJson v.document = v
  | .null, _ | .bool _, _ | .text _, _ => rfl
  | .int i, _ => ofJson_document rfl
  | .list items, plain => by
    rw [document, ofJson, ofJsonItems_documentItems items plain]
  | .double _, plain | .json _, plain | .object _, plain | .connection _ _ _, plain => by cases plain

theorem ofJsonItems_documentItems :
    (items : List Value) → allPlain items = true → ofJsonItems (documentItems items) = items
  | [], _ => rfl
  | v :: items, plain => by
    obtain ⟨here, later⟩ := Bool.and_eq_true_iff.mp plain
    rw [documentItems, ofJsonItems, ofJson_document_plain v here,
      ofJsonItems_documentItems items later]

end

mutual

theorem readsBack_document_plain : (v : Value) → v.isPlain = true → {depth : Nat} →
    v.levels ≤ depth → Json.ReadsBack depth v.document
  | .null, _, _, _ | .bool _, _, _, _ | .int _, _, _, _ | .text _, _, _, _ =>
    readsBack_document rfl _
  | .list items, plain, depth, within => by
    rw [levels] at within
    obtain ⟨depth, rfl⟩ := Nat.exists_eq_add_of_le' (Nat.le_trans (Nat.le_add_left ..) within)
    exact Json.readsBack_array
      (readsBack_documentItems items plain (Nat.le_of_add_le_add_right within))
  | .double _, plain, _, _ | .json _, plain, _, _ | .object _, plain, _, _
  | .connection _ _ _, plain, _, _ => by cases plain

theorem readsBack_documentItems : (items : List Value) → allPlain items = true → {depth : Nat} →
    levelsIn items ≤ depth → ∀ j ∈ documentItems items, Json.ReadsBack depth j
  | [], _, _, _ => by simp [documentItems]
  | v :: items, plain, _, within => by
    obtain ⟨here, later⟩ := Bool.and_eq_true_iff.mp plain
    obtain ⟨first, rest⟩ := Nat.max_le.mp within
    exact List.forall_mem_cons.mpr ⟨readsBack_document_plain v here first,
      readsBack_documentItems items later rest⟩

end

end Value

namespace Json

open Value (ofJson ofJsonItems levels levelsIn)

theorem levels_of_flat {j : Json} (flat : j.isContainer = false) : levels (ofJson j) = 0 := by
  cases j with
  | null | bool _ | string _ => rfl
  | number n =>
    rw [ofJson]
    split <;> rfl
  | array _ | object _ => cases flat

/-- Each level of lists takes one of the containers that there was room for. -/
theorem levels_of_read (fuel : Nat) :
    (∀ {depth cs j r}, readValue? fuel depth cs = some (j, r) → levels (ofJson j) ≤ depth) ∧
    (∀ {depth cs js r}, readItems? fuel depth cs = some (js, r) →
      levelsIn (ofJsonItems js) ≤ depth) ∧
    (∀ {depth cs js r}, readMoreItems? fuel depth cs = some (js, r) →
      levelsIn (ofJsonItems js) ≤ depth) := by
  induction fuel with
  | zero => exact ⟨fun read => (by cases read), fun read => (by cases read), fun read => (by cases read)⟩
  | succ fuel inductionHypothesis =>
    obtain ⟨value, items, more⟩ := inductionHypothesis
    refine ⟨fun read => ?_, fun {depth cs js r} read => ?_, fun {depth cs js r} read => ?_⟩
    · cases read_of_readValue? read with
      | leaf rest flat again => exact Nat.le_trans (Nat.le_of_eq (levels_of_flat flat)) (Nat.zero_le _)
      | string inner again => exact Nat.zero_le _
      | array inner => exact Nat.succ_le_succ (items inner)
      | object inner => exact Nat.zero_le _
    · rw [readItems?] at read
      split at read
      · cases read
        exact Nat.zero_le _
      · exact more read
    · obtain ⟨⟨j, r₁⟩, first, read⟩ := Option.bind_eq_some_iff.mp read
      have here := value first
      simp only at read
      split at read
      · cases read
        exact Nat.max_le.mpr ⟨here, Nat.zero_le _⟩
      · obtain ⟨⟨js, r₂⟩, rest, read⟩ := Option.bind_eq_some_iff.mp read
        cases read
        exact Nat.max_le.mpr ⟨here, more rest⟩
      · cases read

theorem levels_of_readMembers (fuel : Nat) :
    (∀ {depth cs ms r}, readMembers? fuel depth cs = some (ms, r) →
      ∀ m ∈ ms, levels (ofJson m.2) ≤ depth) ∧
    (∀ {depth cs ms r}, readMoreMembers? fuel depth cs = some (ms, r) →
      ∀ m ∈ ms, levels (ofJson m.2) ≤ depth) := by
  induction fuel with
  | zero => exact ⟨fun read => (by cases read), fun read => (by cases read)⟩
  | succ fuel inductionHypothesis =>
    obtain ⟨_, more⟩ := inductionHypothesis
    refine ⟨fun {depth cs ms r} read => ?_, fun {depth cs ms r} read => ?_⟩
    · rw [readMembers?] at read
      split at read
      · cases read
        simp
      · exact more read
    · obtain ⟨⟨name, r₁⟩, _, read⟩ := Option.bind_eq_some_iff.mp read
      simp only at read
      split at read
      · obtain ⟨⟨j, r₂⟩, first, read⟩ := Option.bind_eq_some_iff.mp read
        have here := (levels_of_read fuel).1 first
        simp only at read
        split at read
        · cases read
          exact List.forall_mem_cons.mpr ⟨here, by simp⟩
        · obtain ⟨⟨ms, r₃⟩, rest, read⟩ := Option.bind_eq_some_iff.mp read
          cases read
          exact List.forall_mem_cons.mpr ⟨here, more rest⟩
        · cases read
      · cases read

/-- The values of an object that is read have room in it. -/
theorem levels_of_parseMembers? {text : String} {ms : List (String × Json)}
    (read : parseMembers? text = some ms) : ∀ m ∈ ms, levels (ofJson m.2) ≤ maxDepth - 1 := by
  unfold parseMembers? at read
  split at read
  · obtain ⟨⟨ms, r⟩, inner, read⟩ := Option.bind_eq_some_iff.mp read
    simp only at read
    split at read
    · cases read
      exact (levels_of_readMembers _).1 inner
    · cases read
  · cases read

end Json

namespace Cursor

variable {fields : Fields Value}

/-- Whatever a cursor is read as has room in it. -/
theorem levels_of_toFields {cursor : String} (read : toFields cursor = .ok fields) :
    ∀ f ∈ fields, f.2.levels ≤ 126 := by
  obtain ⟨text, _, read⟩ := bind_eq_ok.mp read
  split at read
  · cases read
  · rename_i members parsed
    cases read
    intro f member
    obtain ⟨m, among, rfl⟩ := List.mem_map.mp (Fields.mem_of_mem_ofPairs member)
    exact Json.levels_of_parseMembers? parsed m among

/-- A map from names to nulls, truth values, integers, texts and lists of these is read back from
its cursor, entry by entry in the same order, if and only if no lists in it are nested beyond 126
levels. -/
theorem toFields_ofFields_iff (distinct : fields.names.Nodup)
    (plain : ∀ f ∈ fields, f.2.isPlain = true) :
    toFields (ofFields fields) = .ok fields ↔ ∀ f ∈ fields, f.2.levels ≤ 126 :=
  ⟨levels_of_toFields, fun room => toFields_ofFields_of_readsBack distinct
    (fun f hf => Value.readsBack_document_plain f.2 (plain f hf) (room f hf))
    (fun f hf => Value.ofJson_document_plain f.2 (plain f hf))⟩

/-- A value inside so many lists, each with a null before it. -/
def within (v : Value) : Nat → Value
  | 0 => v
  | n + 1 => .list [.null, within v n]

theorem isPlain_within (v : Value) (n : Nat) : (within v n).isPlain = v.isPlain := by
  induction n with
  | zero => rfl
  | succ n inductionHypothesis =>
    simp [within, Value.isPlain, Value.allPlain, inductionHypothesis]

theorem levels_within (v : Value) (n : Nat) : (within v n).levels = v.levels + n := by
  induction n with
  | zero => rfl
  | succ n inductionHypothesis =>
    simp [within, Value.levels, Value.levelsIn, inductionHypothesis, Nat.add_assoc]

/-- Names and texts that have to be escaped, the ends of the integers, and nested lists. -/
def oddFields (levels : Nat) : Fields Value :=
  [("z\"", .int Int64.minValue), ("", within (.text "\\\"\x01\n\x7f/é😀") levels),
    ("a", .list [.bool false, .list [], .int Int64.maxValue])]

theorem distinct_oddFields (n : Nat) : (oddFields n).names.Nodup := by
  simp [oddFields, Fields.names]

theorem isPlain_oddFields (n : Nat) : ∀ f ∈ oddFields n, f.2.isPlain = true := by
  simp [oddFields, isPlain_within, Value.isPlain, Value.allPlain]

theorem levels_oddFields {n : Nat} : (∀ f ∈ oddFields n, f.2.levels ≤ 126) ↔ n ≤ 126 := by
  simp [oddFields, levels_within, Value.levels, Value.levelsIn]

/-- The last level that is read back, and the first that is not. -/
theorem toFields_ofFields_odd :
    toFields (ofFields (oddFields 126)) = .ok (oddFields 126) ∧
    toFields (ofFields (oddFields 127)) ≠ .ok (oddFields 127) := by
  constructor
  · apply (toFields_ofFields_iff (distinct_oddFields 126) (isPlain_oddFields 126)).mpr
    exact levels_oddFields.mpr (Nat.le_refl _)
  · intro read
    have room := (toFields_ofFields_iff (distinct_oddFields 127) (isPlain_oddFields 127)).mp read
    exact absurd (levels_oddFields.mp room) (by decide)

end Cursor

end TreeQuery
