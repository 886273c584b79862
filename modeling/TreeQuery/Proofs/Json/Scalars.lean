import Mathlib.Data.List.Basic
import TreeQuery.Json.Parser
import TreeQuery.Json.Printer
import TreeQuery.Proofs.Text.Numeral

/-!
Written numbers and strings are read back. What follows them in the text is left, provided that no
number could go on with it.
-/

namespace TreeQuery

namespace Json

/-- No number goes on with this text. -/
def Ends (r : List Char) : Prop :=
  ∀ c ∈ r.head?, c.isDigit = false ∧ c ≠ '.' ∧ isExponentLetter c = false

section Numbers

variable {r : List Char}

theorem takeFitting_digits {ds : List Char} {s : Nat} (digits : ∀ d ∈ ds, d.isDigit = true)
    (fits : Nat.ofDigitChars 10 ds s < UInt64.size) (ends : Ends r) :
    takeFitting s (ds ++ r) = (Nat.ofDigitChars 10 ds s, ds.length, r) := by
  induction ds generalizing s with
  | nil =>
    cases r with
    | nil => rfl
    | cons c r =>
      have stop : ¬(c.isDigit = true ∧ s * 10 + (c.toNat - 48) < UInt64.size) := by
        simp [(ends c rfl).1]
      rw [List.nil_append, takeFitting, if_neg stop]
      simp
  | cons d ds inductionHypothesis =>
    obtain ⟨digit, digits⟩ := List.forall_mem_cons.mp digits
    rw [Nat.ofDigitChars_cons, Nat.mul_comm] at fits
    have small := Nat.lt_of_le_of_lt (Numeral.le_ofDigitChars ds _) fits
    have later := inductionHypothesis (s := s * 10 + (d.toNat - 48)) digits fits
    rw [List.cons_append, takeFitting, if_pos ⟨digit, small⟩, later, Nat.ofDigitChars_cons,
      Nat.mul_comm]
    rfl

theorem dropWhile_ends (ends : Ends r) : r.dropWhile Char.isDigit = r := by
  cases r with
  | nil => rfl
  | cons c r => simp [(ends c rfl).1]

theorem takeWhile_ends (ends : Ends r) : r.takeWhile Char.isDigit = [] := by
  cases r with
  | nil => rfl
  | cons c r => simp [(ends c rfl).1]

/-- A zero is not followed by more digits. -/
theorem toDigits_alone {n : Nat} {c : Char} {ds : List Char} (written : Nat.toDigits 10 n = c :: ds)
    (ends : Ends r) : ¬(c = '0' ∧ ((ds ++ r).head?.any Char.isDigit) = true) := by
  rintro ⟨rfl, more⟩
  rcases Nat.eq_zero_or_pos n with rfl | positive
  · rw [Nat.toDigits_zero] at written
    cases written
    cases r with
    | nil => simp at more
    | cons c r => simp [(ends c rfl).1] at more
  · exact Numeral.head?_toDigits positive (by rw [written]; rfl)

theorem readNumber?_toDigits {n : Nat} (fits : n < UInt64.size) (negative : Bool) (ends : Ends r) :
    readNumber? negative (Nat.toDigits 10 n ++ r) = some (readNumber?.integer negative n, r) := by
  have digits : ∀ d ∈ Nat.toDigits 10 n, d.isDigit = true := fun d hd =>
    Nat.isDigit_of_mem_toDigits (by decide) (by decide) hd
  have taken := takeFitting_digits (s := 0) digits (by rwa [Nat.ofDigitChars_ten_toDigits]) ends
  rw [Nat.ofDigitChars_ten_toDigits] at taken
  obtain ⟨c, ds, written⟩ := List.exists_cons_of_ne_nil (Nat.toDigits_ne_nil (n := n) (b := 10))
  have digit : c.isDigit = true := digits c (by rw [written]; exact List.mem_cons_self ..)
  rw [written] at taken ⊢
  rw [List.cons_append] at taken ⊢
  simp only [readNumber?, digit, if_neg (toDigits_alone written ends), taken, dropWhile_ends ends,
    takeWhile_ends ends]
  cases r with
  | nil => simp
  | cons d r =>
    obtain ⟨_, point, exponent⟩ := ends d rfl
    simp [point, exponent]

theorem chars_natural (n : UInt64) : chars (.number (.natural n)) = Nat.toDigits 10 n.toNat := by
  simp [chars, Number.text, Numeral.ofUInt64, Numeral.ofNat]

theorem chars_negative {i : Int64} (negative : i.toInt < 0) :
    chars (.number (.negative i)) = '-' :: Nat.toDigits 10 i.toInt.natAbs := by
  obtain ⟨n, hn⟩ := Int.eq_negSucc_of_lt_zero negative
  simp [chars, Number.text, Numeral.ofInt64, hn, Numeral.ofInt, Numeral.ofNat]

theorem readNumber?_natural (n : UInt64) (ends : Ends r) :
    readNumber? false (chars (.number (.natural n)) ++ r) = some (.natural n, r) := by
  rw [chars_natural, readNumber?_toDigits n.toNat_lt false ends, readNumber?.integer]
  simp

theorem readNumber?_negative {i : Int64} (negative : i.toInt < 0) (ends : Ends r) :
    readNumber? true (Nat.toDigits 10 i.toInt.natAbs ++ r) = some (.negative i, r) := by
  have low := i.le_toInt
  have fits : i.toInt.natAbs < UInt64.size := by
    simp only [UInt64.size]
    omega
  have whole : -(i.toInt.natAbs : Int) = i.toInt := by omega
  have held : 0 < i.toInt.natAbs ∧ Numeral.fitsInt64 i.toInt = true :=
    ⟨by omega, Numeral.fitsInt64_toInt i⟩
  rw [readNumber?_toDigits fits true ends, readNumber?.integer, whole, if_neg (by decide),
    if_pos held, Int64.ofInt_toInt]

end Numbers

section Strings

variable {r : List Char}

theorem hexDigit?_hexChar {n : Nat} (small : n < 16) : hexDigit? (hexChar n) = some n := by
  have table : ∀ i : Fin 16, hexDigit? (hexChar i.val) = some i.val := by decide
  exact table ⟨n, small⟩

/-- A control character is written as one unit. -/
theorem readUnits?_control {c : Char} (control : c.toNat < 0x20) :
    readUnits? ('0' :: '0' :: hexChar (c.toNat / 16) :: hexChar (c.toNat % 16) :: r) =
      some (c, r) := by
  have zero : hexDigit? '0' = some 0 := by decide
  have whole : ((0 * 16 + 0) * 16 + c.toNat / 16) * 16 + c.toNat % 16 = c.toNat := by omega
  have unit : readUnit? ('0' :: '0' :: hexChar (c.toNat / 16) :: hexChar (c.toNat % 16) :: r) =
      some (c.toNat, r) := by
    simp only [readUnit?, zero, hexDigit?_hexChar (n := c.toNat / 16) (by omega),
      hexDigit?_hexChar (n := c.toNat % 16) (by omega)]
    exact congrArg (fun n => some (n, r)) whole
  rw [readUnits?, unit]
  simp only [Option.bind_eq_bind, Option.bind_some]
  rw [if_neg (by omega), if_neg (by omega), Char.ofNat_toNat]

theorem readChars?_backslash (fuel : Nat) {d : Char} {rest : List Char}
    (read : readEscape? rest = some (d, r)) : readChars? (fuel + 1) ('\\' :: rest) =
      (readChars? fuel r).map (fun p => (d :: p.1, p.2)) := by
  rw [readChars?, if_neg (by decide), if_pos rfl, read, Option.bind_eq_bind, Option.bind_some]
  simp only
  cases readChars? fuel r <;> rfl

/-- One written character is read as the character. -/
theorem readChars?_escape (fuel : Nat) (c : Char) :
    readChars? (fuel + 1) (escape c ++ r) =
      (readChars? fuel r).map (fun p => (c :: p.1, p.2)) := by
  have short {d e : Char} (same : c = d) (read : readEscape? (e :: r) = some (d, r)) :
      readChars? (fuel + 1) (['\\', e] ++ r) =
        (readChars? fuel r).map (fun p => (c :: p.1, p.2)) := by
    subst same
    exact readChars?_backslash fuel read
  unfold escape
  split
  · exact short ‹_› rfl
  split
  · exact short ‹_› rfl
  split
  · exact short ‹_› rfl
  split
  · exact short ‹_› rfl
  split
  · exact short ‹_› rfl
  split
  · exact short ‹_› rfl
  split
  · exact short ‹_› rfl
  split
  · rename_i control
    exact readChars?_backslash fuel (readUnits?_control control)
  · rename_i quote backslash _ _ _ _ _ plain
    rw [List.singleton_append, readChars?, if_neg quote, if_neg backslash, if_neg plain]
    cases readChars? fuel r <;> rfl

theorem readChars?_flatMap_escape (fuel : Nat) {cs : List Char} (enough : cs.length < fuel) :
    readChars? fuel (cs.flatMap escape ++ '"' :: r) = some (cs, r) := by
  induction cs generalizing fuel with
  | nil =>
    obtain ⟨fuel, rfl⟩ := Nat.exists_eq_add_one_of_ne_zero (Nat.ne_of_gt enough)
    rfl
  | cons c cs inductionHypothesis =>
    obtain ⟨fuel, rfl⟩ := Nat.exists_eq_add_one_of_ne_zero (Nat.ne_of_gt (Nat.zero_lt_of_lt enough))
    have later := inductionHypothesis fuel (by simpa using enough)
    rw [List.flatMap_cons, List.append_assoc, readChars?_escape, later]
    rfl

theorem length_le_quoted (s : String) : s.toList.length + 2 ≤ (quoted s).length := by
  have longer (cs : List Char) : cs.length ≤ (cs.flatMap escape).length := by
    induction cs with
    | nil => simp
    | cons c cs inductionHypothesis =>
      have full : 0 < (escape c).length := by
        unfold escape
        repeat' split
        all_goals simp
      rw [List.flatMap_cons, List.length_append, List.length_cons]
      omega
  have body := longer s.toList
  simp only [quoted, List.cons_append, List.length_cons, List.length_append, List.length_nil]
  omega

theorem readString?_quoted {fuel : Nat} {s : String} (enough : (quoted s).length ≤ fuel) :
    readString? fuel (quoted s ++ r) = some (s, r) := by
  have long := length_le_quoted s
  have opened : quoted s ++ r = '"' :: (s.toList.flatMap escape ++ '"' :: r) := by
    simp [quoted]
  rw [opened, readString?, readChars?_flatMap_escape _ (by omega)]
  simp

end Strings

end Json

end TreeQuery
