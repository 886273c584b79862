import Mathlib.Data.List.Basic
import TreeQuery.Text.Base64

/-!
Decoding undoes encoding, also of whole texts, and reads nothing but what was encoded.
-/

namespace TreeQuery.Base64

theorem sextet?_letter {n : Nat} (small : n < 64) : sextet? (letter n) = some n := by
  have table : ∀ i : Fin 64, sextet? (letter i) = some i.val := by decide +kernel
  exact table ⟨n, small⟩

theorem letter_ne_padding {n : Nat} (small : n < 64) : letter n ≠ '=' := by
  intro padding
  have read := sextet?_letter small
  rw [padding] at read
  cases read

section Bytes

variable (a b c : UInt8)

theorem first_byte {n : Nat} (low : n < 16) :
    UInt8.ofNat (a.toNat / 4 * 4 + (a.toNat % 4 * 16 + n) / 16) = a := by
  have whole : a.toNat / 4 * 4 + (a.toNat % 4 * 16 + n) / 16 = a.toNat := by omega
  rw [whole, UInt8.ofNat_toNat]

theorem second_byte {m n : Nat} (low : n < 4) :
    UInt8.ofNat ((m * 16 + b.toNat / 16) % 16 * 16 + (b.toNat % 16 * 4 + n) / 4) = b := by
  have bound := b.toNat_lt
  have whole : (m * 16 + b.toNat / 16) % 16 * 16 + (b.toNat % 16 * 4 + n) / 4 = b.toNat := by omega
  rw [whole, UInt8.ofNat_toNat]

theorem third_byte {m : Nat} :
    UInt8.ofNat ((m * 4 + c.toNat / 64) % 4 * 64 + c.toNat % 64) = c := by
  have bound := c.toNat_lt
  have whole : (m * 4 + c.toNat / 64) % 4 * 64 + c.toNat % 64 = c.toNat := by omega
  rw [whole, UInt8.ofNat_toNat]

end Bytes

section Groups

variable {w x y z : Nat} (hw : w < 64) (hx : x < 64) (hy : y < 64) (hz : z < 64)

include hw hx

theorem decodeLast?_one (spare : x % 16 = 0) :
    decodeLast? (letter w) (letter x) '=' '=' = some [UInt8.ofNat (w * 4 + x / 16)] := by
  rw [decodeLast?, sextet?_letter hw, sextet?_letter hx]
  exact if_pos ⟨rfl, spare⟩

include hy

theorem decodeLast?_two (spare : y % 4 = 0) :
    decodeLast? (letter w) (letter x) (letter y) '=' =
      some [UInt8.ofNat (w * 4 + x / 16), UInt8.ofNat (x % 16 * 16 + y / 4)] := by
  rw [decodeLast?, sextet?_letter hw, sextet?_letter hx, sextet?_letter hy]
  exact (if_neg (letter_ne_padding hy)).trans (if_pos spare)

include hz

theorem decodeLast?_three : decodeLast? (letter w) (letter x) (letter y) (letter z) =
    some [UInt8.ofNat (w * 4 + x / 16), UInt8.ofNat (x % 16 * 16 + y / 4),
      UInt8.ofNat (y % 4 * 64 + z)] := by
  rw [decodeLast?, sextet?_letter hw, sextet?_letter hx, sextet?_letter hy, sextet?_letter hz]
  exact (if_neg (letter_ne_padding hy)).trans (if_neg (letter_ne_padding hz))

theorem decode?_group {cs : List Char} {rest : List UInt8} (later : decode? cs = some rest) :
    decode? (letter w :: letter x :: letter y :: letter z :: cs) =
      some (UInt8.ofNat (w * 4 + x / 16) :: UInt8.ofNat (x % 16 * 16 + y / 4) ::
        UInt8.ofNat (y % 4 * 64 + z) :: rest) := by
  cases cs with
  | nil =>
    cases later
    exact decodeLast?_three hw hx hy hz
  | cons c cs =>
    rw [decode?, sextet?_letter hw, sextet?_letter hx, sextet?_letter hy, sextet?_letter hz, later]
    · rfl
    · simp

end Groups

theorem decode?_encode : (bytes : List UInt8) → decode? (encode bytes) = some bytes
  | [] => rfl
  | [a] => by
    have ha := a.toNat_lt
    have byte := first_byte a (n := 0) (by omega)
    rw [Nat.add_zero] at byte
    rw [encode, decode?, decodeLast?_one (by omega) (by omega) (by omega), byte]
  | [a, b] => by
    have ha := a.toNat_lt
    have hb := b.toNat_lt
    have byte := second_byte b (m := a.toNat % 4) (n := 0) (by omega)
    rw [Nat.add_zero] at byte
    rw [encode, decode?, decodeLast?_two (by omega) (by omega) (by omega) (by omega),
      first_byte a (by omega), byte]
  | a :: b :: c :: r => by
    have ha := a.toNat_lt
    have hb := b.toNat_lt
    have hc := c.toNat_lt
    rw [encode, decode?_group (by omega) (by omega) (by omega) (by omega) (decode?_encode r),
      first_byte a (by omega), second_byte b (by omega), third_byte]

theorem ofNat_add {c : Char} {k : Nat} (low : k ≤ c.toNat) :
    Char.ofNat (k + (c.toNat - k)) = c := by
  rw [Nat.add_sub_cancel' low, Char.ofNat_toNat]

/-- Each sextet has one letter. -/
theorem letter_of_sextet? {c : Char} {n : Nat} (read : sextet? c = some n) :
    n < 64 ∧ letter n = c := by
  unfold sextet? at read
  split at read
  · rename_i upper
    obtain ⟨first, last⟩ : 'A'.val ≤ c.val ∧ c.val ≤ 'Z'.val := of_decide_eq_true upper
    have low : 65 ≤ c.toNat := UInt32.le_iff_toNat_le.mp first
    have high : c.toNat ≤ 90 := UInt32.le_iff_toNat_le.mp last
    cases read
    exact ⟨by omega, (if_pos (by omega)).trans (ofNat_add low)⟩
  split at read
  · rename_i lower
    obtain ⟨first, last⟩ := Bool.and_eq_true_iff.mp lower
    have low : 97 ≤ c.toNat := UInt32.le_iff_toNat_le.mp (of_decide_eq_true first)
    have high : c.toNat ≤ 122 := UInt32.le_iff_toNat_le.mp (of_decide_eq_true last)
    cases read
    exact ⟨by omega, (if_neg (by omega)).trans
      ((if_pos (by omega)).trans (ofNat_add (by omega)))⟩
  split at read
  · rename_i digit
    obtain ⟨first, last⟩ := Bool.and_eq_true_iff.mp digit
    have low : 48 ≤ c.toNat := UInt32.le_iff_toNat_le.mp (of_decide_eq_true first)
    have high : c.toNat ≤ 57 := UInt32.le_iff_toNat_le.mp (of_decide_eq_true last)
    cases read
    have back : Char.ofNat (c.toNat + 4 - 4) = c := by
      rw [Nat.add_sub_cancel, Char.ofNat_toNat]
    exact ⟨by omega, (if_neg (by omega)).trans ((if_neg (by omega)).trans
      ((if_pos (by omega)).trans back))⟩
  split at read
  · rename_i plus
    cases read
    exact ⟨by decide, plus.symm⟩
  split at read
  · rename_i slash
    cases read
    exact ⟨by decide, slash.symm⟩
  · cases read

section Groups

variable {i j k l : Nat} (hi : i < 64) (hj : j < 64) (hk : k < 64) (hl : l < 64)

include hi hj

theorem encode_one (spare : j % 16 = 0) :
    encode [UInt8.ofNat (i * 4 + j / 16)] = [letter i, letter j, '=', '='] := by
  have a : (UInt8.ofNat (i * 4 + j / 16)).toNat = i * 4 + j / 16 :=
    UInt8.toNat_ofNat_of_lt' (show i * 4 + j / 16 < 256 by omega)
  have first : (i * 4 + j / 16) / 4 = i := by omega
  have second : (i * 4 + j / 16) % 4 * 16 = j := by omega
  rw [encode, a, first, second]

include hk

theorem encode_two (spare : k % 4 = 0) :
    encode [UInt8.ofNat (i * 4 + j / 16), UInt8.ofNat (j % 16 * 16 + k / 4)] =
      [letter i, letter j, letter k, '='] := by
  have a : (UInt8.ofNat (i * 4 + j / 16)).toNat = i * 4 + j / 16 :=
    UInt8.toNat_ofNat_of_lt' (show i * 4 + j / 16 < 256 by omega)
  have b : (UInt8.ofNat (j % 16 * 16 + k / 4)).toNat = j % 16 * 16 + k / 4 :=
    UInt8.toNat_ofNat_of_lt' (show j % 16 * 16 + k / 4 < 256 by omega)
  have first : (i * 4 + j / 16) / 4 = i := by omega
  have second : (i * 4 + j / 16) % 4 * 16 + (j % 16 * 16 + k / 4) / 16 = j := by omega
  have third : (j % 16 * 16 + k / 4) % 16 * 4 = k := by omega
  rw [encode, a, b, first, second, third]

include hl

theorem encode_three (bytes : List UInt8) :
    encode (UInt8.ofNat (i * 4 + j / 16) :: UInt8.ofNat (j % 16 * 16 + k / 4) ::
      UInt8.ofNat (k % 4 * 64 + l) :: bytes) =
      letter i :: letter j :: letter k :: letter l :: encode bytes := by
  have a : (UInt8.ofNat (i * 4 + j / 16)).toNat = i * 4 + j / 16 :=
    UInt8.toNat_ofNat_of_lt' (show i * 4 + j / 16 < 256 by omega)
  have b : (UInt8.ofNat (j % 16 * 16 + k / 4)).toNat = j % 16 * 16 + k / 4 :=
    UInt8.toNat_ofNat_of_lt' (show j % 16 * 16 + k / 4 < 256 by omega)
  have c : (UInt8.ofNat (k % 4 * 64 + l)).toNat = k % 4 * 64 + l :=
    UInt8.toNat_ofNat_of_lt' (show k % 4 * 64 + l < 256 by omega)
  have first : (i * 4 + j / 16) / 4 = i := by omega
  have second : (i * 4 + j / 16) % 4 * 16 + (j % 16 * 16 + k / 4) / 16 = j := by omega
  have third : (j % 16 * 16 + k / 4) % 16 * 4 + (k % 4 * 64 + l) / 64 = k := by omega
  have fourth : (k % 4 * 64 + l) % 64 = l := by omega
  rw [encode, a, b, c, first, second, third, fourth]

end Groups

theorem encode_decodeLast? {w x y z : Char} {bytes : List UInt8}
    (read : decodeLast? w x y z = some bytes) : encode bytes = [w, x, y, z] := by
  simp only [decodeLast?, Option.bind_eq_bind, Option.bind_eq_some_iff] at read
  obtain ⟨i, hw, j, hx, read⟩ := read
  obtain ⟨hi, rfl⟩ := letter_of_sextet? hw
  obtain ⟨hj, rfl⟩ := letter_of_sextet? hx
  split at read
  · rename_i none
    split at read
    · rename_i last
      cases read
      rw [encode_one hi hj last.2, none, last.1]
    · cases read
  simp only [Option.bind_eq_some_iff] at read
  obtain ⟨k, hy, read⟩ := read
  obtain ⟨hk, rfl⟩ := letter_of_sextet? hy
  split at read
  · rename_i last
    split at read
    · rename_i spare
      cases read
      rw [encode_two hi hj hk spare, last]
    · cases read
  · simp only [Option.bind_eq_some_iff] at read
    obtain ⟨l, hz, read⟩ := read
    obtain ⟨hl, rfl⟩ := letter_of_sextet? hz
    cases read
    exact encode_three hi hj hk hl []

theorem encode_decode? {cs : List Char} {bytes : List UInt8} (read : decode? cs = some bytes) :
    encode bytes = cs := by
  induction cs using decode?.induct generalizing bytes with
  | case1 =>
    cases read
    rfl
  | case2 w x y z => exact encode_decodeLast? read
  | case3 w x y z r more inductionHypothesis =>
    rw [decode?] at read
    simp only [Option.bind_eq_bind, Option.bind_eq_some_iff] at read
    obtain ⟨i, hw, j, hx, k, hy, l, hz, rest, later, read⟩ := read
    obtain ⟨hi, rfl⟩ := letter_of_sextet? hw
    obtain ⟨hj, rfl⟩ := letter_of_sextet? hx
    obtain ⟨hk, rfl⟩ := letter_of_sextet? hy
    obtain ⟨hl, rfl⟩ := letter_of_sextet? hz
    cases read
    rw [encode_three hi hj hk hl, inductionHypothesis later]
    · exact more
  | case4 cs empty last more =>
    rw [decode?] at read
    · cases read
    all_goals assumption

theorem toList_loop (bytes : ByteArray) (i : Nat) (acc : List UInt8) :
    ByteArray.toList.loop bytes i acc = acc.reverse ++ bytes.data.toList.drop i := by
  rw [ByteArray.toList.loop.eq_1]
  split
  · rename_i more
    have inside : i < bytes.data.toList.length := by simpa using more
    have here : bytes.get! i = bytes.data.toList[i] := by
      rw [ByteArray.get!, getElem!_pos bytes.data i (by simpa using more), Array.getElem_toList]
    rw [toList_loop bytes (i + 1), List.drop_eq_getElem_cons inside, here, List.reverse_cons,
      List.append_assoc, List.singleton_append]
  · rename_i done
    rw [List.drop_of_length_le (by simpa using done), List.append_nil]
termination_by bytes.size - i

/-- Encoded texts decode to the bytes of the text. -/
theorem decode?_encodeText (s : String) :
    decode? (encodeText s).toList = some s.toByteArray.data.toList := by
  rw [encodeText, String.toList_ofList, decode?_encode, ByteArray.toList, toList_loop]
  rfl

/-- Bytes that are read as a text were encoded as that text is. -/
theorem encodeText_of_decode? {c s : String} {bytes : List UInt8}
    (read : decode? c.toList = some bytes)
    (valid : String.fromUTF8? ⟨bytes.toArray⟩ = some s) : encodeText s = c := by
  rw [String.fromUTF8?] at valid
  split at valid
  · cases valid
    have same : ByteArray.toList ⟨bytes.toArray⟩ = bytes := by
      rw [ByteArray.toList, toList_loop]
      simp
    change String.ofList (encode (ByteArray.toList ⟨bytes.toArray⟩)) = c
    rw [same, encode_decode? read, String.ofList_toList]
  · cases valid

/-- The bytes of a text are read as the text. -/
theorem fromUTF8?_toByteArray (s : String) :
    String.fromUTF8? ⟨s.toByteArray.data.toList.toArray⟩ = some s := by
  have same : (⟨s.toByteArray.data.toList.toArray⟩ : ByteArray) = s.toByteArray := by simp
  rw [same, String.fromUTF8?, dif_pos s.isValidUTF8]
  rfl

end TreeQuery.Base64
