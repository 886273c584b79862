import TreeQuery.Cursor
import TreeQuery.Proofs.Fields
import TreeQuery.Proofs.Json.Members
import TreeQuery.Proofs.Success
import TreeQuery.Proofs.Text.Base64

/-!
Keyset cursors are understood: what a cursor was made of is found in it again.
-/

namespace TreeQuery

theorem Fields.get?_map_of_nodup {α γ : Type} {f : γ → String} {l : List γ}
    (distinct : (l.map f).Nodup) (g : γ → α) {c : γ} (member : c ∈ l) :
    get? (l.map (fun c => (f c, g c))) (f c) = some (g c) := by
  induction l with
  | nil => cases member
  | cons d l inductionHypothesis =>
    obtain ⟨fresh, distinct⟩ := List.nodup_cons.mp distinct
    rw [List.map_cons, get?_cons]
    rcases List.mem_cons.mp member with rfl | later
    · rw [if_pos rfl]
    · have other : f d ≠ f c := fun same => fresh (same ▸ List.mem_map_of_mem later)
      rw [if_neg other, inductionHypothesis distinct later]

/-- A value that a cursor can hold: one of a single cell, but not a double. -/
def Value.isScalar : Value → Bool
  | .null | .bool _ | .int _ | .text _ => true
  | _ => false

open Json (ReadsBack)

theorem Json.Number.int64?_ofInt64 (i : Int64) : (ofInt64 i).int64? = some i := by
  unfold ofInt64
  split
  · rfl
  · rename_i natural
    have high := i.toInt_lt
    have fits : i.toInt.toNat < UInt64.size := by
      simp only [UInt64.size]
      omega
    have whole : (i.toInt.toNat : Int) = i.toInt := by omega
    have back : ((UInt64.ofNat i.toInt.toNat).toNat : Int) = i.toInt := by
      rw [UInt64.toNat_ofNat_of_lt' fits, whole]
    rw [int64?, back, if_pos (Numeral.fitsInt64_toInt i), Int64.ofInt_toInt]

theorem Value.ofJson_document {v : Value} (scalar : v.isScalar = true) :
    ofJson v.document = v := by
  cases v with
  | null | bool _ | text _ => rfl
  | int i => rw [document, ofJson, Json.Number.int64?_ofInt64]
  | double _ | json _ | list _ | object _ | connection _ _ _ => cases scalar

theorem Value.readsBack_document {v : Value} (scalar : v.isScalar = true) (depth : Nat) :
    ReadsBack depth v.document := by
  cases v with
  | null => exact Json.readsBack_null
  | bool b => exact Json.readsBack_bool b
  | int i => exact Json.readsBack_integer i
  | text s => exact Json.readsBack_string s
  | double _ | json _ | list _ | object _ | connection _ _ _ => cases scalar

theorem Value.documentFields_eq (fields : Fields Value) :
    documentFields fields = fields.map (fun f => (f.1, f.2.document)) := by
  induction fields with
  | nil => rfl
  | cons f fields inductionHypothesis =>
    obtain ⟨n, v⟩ := f
    rw [documentFields, inductionHypothesis, List.map_cons]

namespace Cursor

theorem decodeText_encodeText (s : String) : decodeText (Base64.encodeText s) = .ok s := by
  rw [decodeText, Base64.decode?_encodeText]
  simp only [Base64.fromUTF8?_toByteArray]

theorem decodeText_eq_ok_iff {cursor text : String} :
    decodeText cursor = .ok text ↔ cursor = Base64.encodeText text := by
  constructor
  · intro decoded
    unfold decodeText at decoded
    split at decoded
    · cases decoded
    rename_i bytes read
    split at decoded
    · cases decoded
    · rename_i text valid
      cases decoded
      exact (Base64.encodeText_of_decode? read valid).symm
  · rintro rfl
    exact decodeText_encodeText text

/-- The fields of a cursor are those it was made of, in their order, if their values are read back
and stay as they are on the way through JSON. -/
theorem toFields_ofFields_of_readsBack {fields : Fields Value} (distinct : fields.names.Nodup)
    (read : ∀ f ∈ fields, ReadsBack (Json.maxDepth - 1) f.2.document)
    (kept : ∀ f ∈ fields, Value.ofJson f.2.document = f.2) :
    toFields (ofFields fields) = .ok fields := by
  have members : Json.parseMembers? (Value.object fields).responseText =
      some (fields.map (fun f => (f.1, f.2.document))) := by
    rw [Value.responseText, Value.document, Value.documentFields_eq]
    apply Json.parseMembers?_text
    intro m member
    obtain ⟨f, hf, rfl⟩ := List.mem_map.mp member
    exact read f hf
  have back : (fields.map (fun f => (f.1, f.2.document))).map (fun m => (m.1, Value.ofJson m.2)) =
      fields := by
    rw [List.map_map]
    refine (List.map_congr_left ?_).trans (List.map_id fields)
    intro f hf
    simp [kept f hf]
  rw [toFields, ofFields, decodeText_encodeText]
  simp only [bind, Except.bind, members, back, Fields.ofPairs_of_nodup distinct]

theorem toFields_ofFields {fields : Fields Value} (distinct : fields.names.Nodup)
    (scalars : ∀ f ∈ fields, f.2.isScalar = true) : toFields (ofFields fields) = .ok fields :=
  toFields_ofFields_of_readsBack distinct
    (fun f hf => Value.readsBack_document (scalars f hf) _)
    (fun f hf => Value.ofJson_document (scalars f hf))

variable {key : SortKey} {fields : Fields Value} {value converted : SortColumn → Value}

theorem validate_ok (names : fields.names = key.names) : validate fields key = .ok () := by
  have extra : (Fields.names fields).find? (fun n => !key.names.contains n) = none := by
    rw [names, List.find?_eq_none]
    simp
  have missing : key.names.find? (fun n => !Fields.contains fields n) = none := by
    rw [List.find?_eq_none, ← names]
    intro n hn
    rw [Fields.contains, Fields.isSome_get?.mpr hn]
    decide
  rw [validate, extra, missing]

theorem takeColumns_ok (distinct : key.names.Nodup)
    (held : ∀ c ∈ key, Fields.get? fields c.name = some (value c))
    (converts : ∀ c ∈ key, c.type.convert? (value c) = some (converted c)) :
    takeColumns fields key = .ok (key.map converted) := by
  induction key generalizing fields with
  | nil => rfl
  | cons c key inductionHypothesis =>
    obtain ⟨here, held⟩ := List.forall_mem_cons.mp held
    obtain ⟨convert, converts⟩ := List.forall_mem_cons.mp converts
    obtain ⟨fresh, distinct⟩ := List.nodup_cons.mp distinct
    have later : takeColumns (Fields.erase fields c.name) key = .ok (key.map converted) :=
      inductionHypothesis distinct ?_ converts
    · simp only [takeColumns, here, Option.getD_some, convert, later, bind, Except.bind,
        List.map_cons]
    · intro d hd
      have other : c.name ≠ d.name := fun same => fresh (same ▸ List.mem_map_of_mem hd)
      rw [Fields.get?_erase, if_neg other, held d hd]

/-- A cursor that was made of one value for each column of a key is accepted for the key, and gives
the values as the key's types convert them. -/
theorem toKeyset_ofFields (distinct : key.names.Nodup)
    (scalars : ∀ c ∈ key, (value c).isScalar = true)
    (converts : ∀ c ∈ key, c.type.convert? (value c) = some (converted c)) :
    toKeyset (ofFields (key.map (fun c => (c.name, value c)))) key = .ok (key.map converted) := by
  have names : Fields.names (key.map (fun c => (c.name, value c))) = key.names := by
    rw [Fields.names, List.map_map]
    rfl
  have read : toFields (ofFields (key.map (fun c => (c.name, value c)))) =
      .ok (key.map (fun c => (c.name, value c))) := by
    apply toFields_ofFields
    · rw [names]
      exact distinct
    · intro f hf
      obtain ⟨c, hc, rfl⟩ := List.mem_map.mp hf
      exact scalars c hc
  have held : ∀ c ∈ key, Fields.get? (key.map (fun c => (c.name, value c))) c.name =
      some (value c) := fun c hc => Fields.get?_map_of_nodup distinct value hc
  rw [toKeyset, read]
  simp only [bind, Except.bind, validate_ok names]
  exact takeColumns_ok distinct held converts

theorem takeColumns_length {fields : Fields Value} {key : SortKey} {vs : List Value}
    (h : takeColumns fields key = .ok vs) : vs.length = key.length := by
  induction key generalizing fields vs with
  | nil =>
    cases h
    rfl
  | cons c key inductionHypothesis =>
    rw [takeColumns] at h
    split at h
    · cases h
    obtain ⟨ws, later, same⟩ := bind_eq_ok.mp h
    cases same
    rw [List.length_cons, List.length_cons, inductionHypothesis later]

/-- A cursor that is accepted for a key has one value for each of its columns. -/
theorem toKeyset_length {cursor : String} {key : SortKey} {vs : List Value}
    (h : toKeyset cursor key = .ok vs) : vs.length = key.length := by
  obtain ⟨fields, _, h⟩ := bind_eq_ok.mp h
  obtain ⟨_, _, h⟩ := bind_eq_ok.mp h
  exact takeColumns_length h

/-- The position of a page, if it has one, has a value for each column of the key. -/
theorem position_length {cursor : Option String} {key : SortKey} {position : Option (List Value)}
    (decoded : cursor.mapM (fun c => toKeyset c key) = .ok position) {vs : List Value}
    (given : position = some vs) : vs.length = key.length := by
  subst given
  cases cursor with
  | none => cases decoded
  | some c =>
    obtain ⟨_, read, same⟩ := map_eq_ok.mp decoded
    cases same
    exact toKeyset_length read

end Cursor

end TreeQuery
