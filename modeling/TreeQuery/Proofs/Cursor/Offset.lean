import TreeQuery.Proofs.Cursor
import TreeQuery.Proofs.Text.Numeral

/-!
Offset cursors. A position has one cursor of its own, which stands for it if 63 bits hold it. The
cursors that are read as a position are those that write its number with zeros or a plus sign in
front, and no others.
-/

namespace TreeQuery

theorem Base64.encodeText_injective : Function.Injective encodeText := by
  intro s t same
  have read := congrArg Cursor.decodeText same
  rw [Cursor.decodeText_encodeText, Cursor.decodeText_encodeText] at read
  cases read
  rfl

namespace Cursor

variable {cursor : String} {n zeros : Nat} {plus : Bool}

theorem afterTag?_eq_some_iff {text rest : String} :
    afterTag? text = some rest ↔ text = offsetTag ++ rest := by
  unfold afterTag?
  constructor
  · intro tagged
    split at tagged
    · rename_i begins
      obtain ⟨cs, split⟩ := List.isPrefixOf_iff_prefix.mp begins
      cases tagged
      apply String.toList_inj.mp
      rw [String.toList_append, String.toList_ofList, ← split,
        List.drop_left' String.length_toList]
    · cases tagged
  · rintro rfl
    rw [String.toList_append, if_pos (List.isPrefixOf_iff_prefix.mpr (List.prefix_append _ _)),
      List.drop_left' String.length_toList, String.ofList_toList]

/-- A cursor that writes a position with so many zeros and perhaps a plus sign in front. -/
def ofPadded (plus : Bool) (zeros n : Nat) : String :=
  Base64.encodeText (offsetTag ++ Numeral.padded plus zeros n)

theorem ofPadded_plain (n : Nat) : ofPadded false 0 n = ofOffset n := rfl

theorem ofPadded_inj {plus' : Bool} {zeros' n' : Nat} :
    ofPadded plus zeros n = ofPadded plus' zeros' n' ↔ plus = plus' ∧ zeros = zeros' ∧ n = n' := by
  rw [← Numeral.padded_inj]
  constructor
  · intro same
    have lists := congrArg String.toList (Base64.encodeText_injective same)
    rw [String.toList_append, String.toList_append] at lists
    exact String.toList_inj.mp (List.append_cancel_left lists)
  · intro same
    rw [ofPadded, ofPadded, same]

/-- A cursor of a word is read, however it is padded, but beyond 63 bits it is out of range. -/
theorem toOffset_ofPadded (plus : Bool) (zeros : Nat) (n : UInt64) :
    toOffset (ofPadded plus zeros n.toNat) = if Numeral.fitsInt64 n.toNat then .ok n.toNat
      else .error (.outOfRange (ofPadded plus zeros n.toNat)) := by
  have read : (afterTag? (offsetTag ++ Numeral.padded plus zeros n.toNat)).bind Numeral.uint64? =
      some n := by
    rw [afterTag?_eq_some_iff.mpr rfl, Option.bind_some,
      Numeral.uint64?_eq_some_iff.mpr ⟨plus, zeros, rfl⟩]
  rw [toOffset, ofPadded, decodeText_encodeText]
  simp only [bind, Except.bind, read]

/-- The cursors that are read as a position. -/
theorem toOffset_eq_ok_iff :
    toOffset cursor = .ok n ↔ n < 2 ^ 63 ∧ ∃ plus zeros, cursor = ofPadded plus zeros n := by
  constructor
  · intro accepted
    obtain ⟨text, decoded, accepted⟩ := bind_eq_ok.mp accepted
    split at accepted
    · cases accepted
    rename_i w numbered
    split at accepted
    · rename_i fits
      cases accepted
      obtain ⟨rest, tagged, read⟩ := Option.bind_eq_some_iff.mp numbered
      obtain ⟨plus, zeros, rfl⟩ := Numeral.uint64?_eq_some_iff.mp read
      refine ⟨Numeral.fitsInt64_natCast.mp fits, plus, zeros, ?_⟩
      rw [decodeText_eq_ok_iff.mp decoded, afterTag?_eq_some_iff.mp tagged, ofPadded]
    · cases accepted
  · rintro ⟨small, plus, zeros, rfl⟩
    have size : n < UInt64.size := Nat.lt_trans small (by decide)
    have word := toOffset_ofPadded plus zeros (UInt64.ofNat n)
    rwa [UInt64.toNat_ofNat_of_lt' size, if_pos (Numeral.fitsInt64_natCast.mpr small)] at word

/-- The cursor of a position stands for it. -/
theorem toOffset_ofOffset (small : n < 2 ^ 63) : toOffset (ofOffset n) = .ok n :=
  toOffset_eq_ok_iff.mpr ⟨small, false, 0, rfl⟩

/-- The cursor of a word stands for it if 63 bits hold it, and is refused otherwise. No two words
have one cursor. -/
theorem toOffset_ofOffset_eq :
    (∀ n : UInt64, toOffset (ofOffset n.toNat) =
      if (n.toNat : Int) ≤ Int64.maxValue.toInt then .ok n.toNat
      else .error (.outOfRange (ofOffset n.toNat))) ∧
    (∀ cursor, (CursorError.outOfRange cursor).toError.isA .invalidCursor = true) ∧
    Function.Injective (fun n : UInt64 => ofOffset n.toNat) := by
  refine ⟨fun n => ?_, fun cursor => rfl, fun m n same => ?_⟩
  · have most : Int64.maxValue.toInt = 2 ^ 63 - 1 := by decide
    have read := toOffset_ofPadded false 0 n
    rw [ofPadded_plain] at read
    rw [read]
    apply ite_congr
    · rw [Numeral.fitsInt64_natCast, most, eq_iff_iff]
      omega
    · exact fun _ => rfl
    · exact fun _ => rfl
  · have padded : ofPadded false 0 m.toNat = ofPadded false 0 n.toNat := same
    exact UInt64.toNat_inj.mp (ofPadded_inj.mp padded).2.2

/-- A cursor is read as a position if and only if it writes the number of the position with zeros
or a plus sign in front or with nothing, and only in the last case is it the position's own cursor.
Every other cursor is refused as an invalid cursor. -/
theorem ofOffset_toOffset_iff (cursor : String) (n : Nat) :
    (toOffset cursor = .ok n ↔ n < 2 ^ 63 ∧ ∃ plus zeros, cursor = ofPadded plus zeros n) ∧
    (∀ plus zeros, ofOffset n = ofPadded plus zeros n ↔ plus = false ∧ zeros = 0) ∧
    (∀ e, toOffset cursor = .error e → e.toError.isA .invalidCursor = true) := by
  refine ⟨toOffset_eq_ok_iff, fun plus zeros => ?_, fun e _ => rfl⟩
  rw [← ofPadded_plain, ofPadded_inj, eq_comm, eq_comm (a := 0)]
  simp

/-- A sign before the number of a position is passed over. -/
theorem toOffset_signed_five : toOffset "YXJyYXljb25uZWN0aW9uOis1" = .ok 5 ∧
    ofOffset 5 ≠ "YXJyYXljb25uZWN0aW9uOis1" := by
  constructor
  · rfl
  · decide +kernel

end Cursor

end TreeQuery
