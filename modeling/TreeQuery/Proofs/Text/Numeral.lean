import Mathlib.Algebra.Group.Nat.Defs
import Mathlib.Data.List.Basic
import Mathlib.Data.List.Induction
import TreeQuery.Text.Numeral

/-!
The texts that are read as one number. They are its numeral with any number of zeros in front and,
before these, with a plus sign or without.
-/

namespace TreeQuery.Numeral

theorem ofNat_injective : Function.Injective ofNat := by
  intro m n same
  have digits : Nat.toDigits 10 m = Nat.toDigits 10 n := String.ofList_injective same
  have read := congrArg nat? digits
  rw [nat?_toDigits, nat?_toDigits] at read
  exact Option.some.inj read

/-- Only zero is written with a zero in front. -/
theorem head?_toDigits {n : Nat} (positive : 0 < n) : (Nat.toDigits 10 n).head? ≠ some '0' := by
  induction n using Nat.strongRecOn with
  | ind n inductionHypothesis =>
    by_cases small : n < 10
    · rw [Nat.toDigits_of_lt_base small]
      have table : ∀ d : Fin 10, 0 < d.val → [d.val.digitChar].head? ≠ some '0' := by decide
      exact table ⟨n, small⟩ positive
    · have fewer := inductionHypothesis (n / 10) (by omega) (by omega)
      rw [Nat.toDigits_of_base_le (by decide) (by omega),
        List.head?_append_of_ne_nil _ Nat.toDigits_ne_nil]
      exact fewer

theorem le_ofDigitChars (ds : List Char) (s : Nat) : s ≤ Nat.ofDigitChars 10 ds s := by
  induction ds generalizing s with
  | nil => simp
  | cons d ds inductionHypothesis =>
    rw [Nat.ofDigitChars_cons]
    have later := inductionHypothesis (10 * s + (d.toNat - '0'.toNat))
    omega

theorem fitsInt64_toInt (i : Int64) : fitsInt64 i.toInt = true := by
  simp only [fitsInt64, Bool.and_eq_true, decide_eq_true_eq]
  exact ⟨Int64.minValue_le_toInt i, Int64.toInt_le i⟩

theorem toInt_ofInt_of_fits {i : Int} (fits : fitsInt64 i = true) : (Int64.ofInt i).toInt = i := by
  simp only [fitsInt64, Bool.and_eq_true, decide_eq_true_eq] at fits
  exact Int64.toInt_ofInt_of_le fits.1 (Int.lt_of_le_of_lt fits.2 (by decide))

theorem fitsInt64_natCast {n : Nat} : fitsInt64 n = true ↔ n < 2 ^ 63 := by
  have least : Int64.minValue.toInt = -2 ^ 63 := by decide
  have most : Int64.maxValue.toInt = 2 ^ 63 - 1 := by decide
  simp only [fitsInt64, least, most, Bool.and_eq_true, decide_eq_true_eq]
  omega

section Padded

variable {cs : List Char} {n : Nat}

theorem exists_digitChar {c : Char} (digit : c.isDigit = true) : ∃ d < 10, c = d.digitChar := by
  obtain ⟨low, high⟩ : 48 ≤ c.toNat ∧ c.toNat ≤ 57 := Char.isDigit_iff_toNat.mp digit
  have small : c.toNat - 48 < 10 := by omega
  refine ⟨c.toNat - 48, small, Char.toNat_inj.mp ?_⟩
  rw [Nat.toNat_digitChar_of_lt_ten small]
  omega

/-- Digits are the numeral of their value, behind some zeros. -/
theorem eq_zeros_append_toDigits (written : cs ≠ []) (digits : ∀ c ∈ cs, c.isDigit = true) :
    ∃ zeros, cs = List.replicate zeros '0' ++ Nat.toDigits 10 (Nat.ofDigitChars 10 cs 0) := by
  induction cs using List.reverseRecOn with
  | nil => exact absurd rfl written
  | append_singleton ds c inductionHypothesis =>
    obtain ⟨front, last⟩ := List.forall_mem_append.mp digits
    obtain ⟨d, small, rfl⟩ := exists_digitChar (last c (List.mem_singleton_self c))
    have value : Nat.ofDigitChars 10 (ds ++ [d.digitChar]) 0 = 10 * Nat.ofDigitChars 10 ds 0 + d := by
      rw [Nat.ofDigitChars_append, Nat.ofDigitChars_cons_digitChar_of_lt_ten small,
        Nat.ofDigitChars_nil]
    rw [value, ← Nat.toDigits_of_lt_base small]
    by_cases first : ds = []
    · subst first
      exact ⟨0, by simp⟩
    obtain ⟨zeros, before⟩ := inductionHypothesis first front
    rcases Nat.eq_zero_or_pos (Nat.ofDigitChars 10 ds 0) with zero | positive
    -- A front without a value is all zeros, and they stand before the numeral of the last digit.
    · refine ⟨zeros + 1, ?_⟩
      rw [zero, Nat.toDigits_zero, ← List.replicate_succ'] at before
      rw [zero, Nat.mul_zero, Nat.zero_add, before]
    · refine ⟨zeros, ?_⟩
      rw [← Nat.toDigits_append_toDigits (by decide) positive small, ← List.append_assoc, ← before]

theorem nat?_eq_some_iff :
    nat? cs = some n ↔ ∃ zeros, cs = List.replicate zeros '0' ++ Nat.toDigits 10 n := by
  constructor
  · intro read
    unfold nat? at read
    split at read
    · cases read
    · rename_i accepted
      simp only [Bool.or_eq_true, List.isEmpty_iff, Bool.not_eq_eq_eq_not, Bool.not_true, not_or,
        Bool.not_eq_false, List.all_eq_true] at accepted
      cases read
      exact eq_zeros_append_toDigits accepted.1 accepted.2
  · rintro ⟨zeros, rfl⟩
    have digits : (List.replicate zeros '0' ++ Nat.toDigits 10 n).all Char.isDigit = true := by
      rw [List.all_append, Bool.and_eq_true, List.all_replicate, List.all_eq_true]
      refine ⟨by simp, fun c hc => Nat.isDigit_of_mem_toDigits (by decide) (by decide) hc⟩
    have value : Nat.ofDigitChars 10 (List.replicate zeros '0' ++ Nat.toDigits 10 n) 0 = n := by
      rw [Nat.ofDigitChars_append, Nat.ofDigitChars_replicate_zero, Nat.mul_zero,
        Nat.ofDigitChars_toDigits (by decide) (by decide)]
    rw [nat?, digits, value]
    simp

/-- A numeral with a plus sign or without, and with so many zeros in front. -/
def padded (plus : Bool) (zeros n : Nat) : String :=
  String.ofList ((if plus then ['+'] else []) ++ (List.replicate zeros '0' ++ Nat.toDigits 10 n))

theorem padded_toList (plus : Bool) (zeros n : Nat) : (padded plus zeros n).toList =
    (if plus then ['+'] else []) ++ (List.replicate zeros '0' ++ Nat.toDigits 10 n) :=
  String.toList_ofList

/-- What is written without a sign does not begin with one. -/
theorem zeros_append_ne_plus (zeros n : Nat) (cs : List Char) :
    List.replicate zeros '0' ++ Nat.toDigits 10 n ≠ '+' :: cs := by
  intro same
  have read : nat? ('+' :: cs) = some n := nat?_eq_some_iff.mpr ⟨zeros, same.symm⟩
  simp [nat?] at read

theorem nat?_padded_inj {zeros n zeros' n' : Nat}
    (same : List.replicate zeros '0' ++ Nat.toDigits 10 n =
      List.replicate zeros' '0' ++ Nat.toDigits 10 n') : zeros = zeros' ∧ n = n' := by
  have number : n = n' := by
    have read := nat?_eq_some_iff.mpr ⟨zeros, same.symm⟩
    rw [nat?_eq_some_iff.mpr ⟨zeros', rfl⟩] at read
    exact (Option.some.inj read).symm
  subst number
  have lengths := congrArg List.length same
  rw [List.length_append, List.length_append, List.length_replicate, List.length_replicate]
    at lengths
  exact ⟨Nat.add_right_cancel lengths, rfl⟩

/-- Numerals that are padded in other ways are other texts. -/
theorem padded_inj {plus plus' : Bool} {zeros n zeros' n' : Nat} :
    padded plus zeros n = padded plus' zeros' n' ↔ plus = plus' ∧ zeros = zeros' ∧ n = n' := by
  refine ⟨fun same => ?_, by rintro ⟨rfl, rfl, rfl⟩; rfl⟩
  have texts := congrArg String.toList same
  rw [padded_toList, padded_toList] at texts
  cases plus <;> cases plus'
  · exact ⟨rfl, nat?_padded_inj texts⟩
  · exact absurd texts (zeros_append_ne_plus zeros n _)
  · exact absurd texts.symm (zeros_append_ne_plus zeros' n' _)
  · exact ⟨rfl, nat?_padded_inj (List.cons.inj texts).2⟩

/-- A word is read from its padded numerals and from no other text. -/
theorem uint64?_eq_some_iff {s : String} {n : UInt64} :
    uint64? s = some n ↔ ∃ plus zeros, s = padded plus zeros n.toNat := by
  have word {cs : List Char} : ((nat? cs).bind (fun n =>
      if n < UInt64.size then some (UInt64.ofNat n) else none)) = some n ↔
      nat? cs = some n.toNat := by
    rw [Option.bind_eq_some_iff]
    constructor
    · rintro ⟨m, read, fits⟩
      split at fits
      · rename_i small
        cases fits
        rw [read, UInt64.toNat_ofNat_of_lt' small]
      · cases fits
    · intro read
      exact ⟨n.toNat, read, by rw [if_pos n.toNat_lt, UInt64.ofNat_toNat]⟩
  unfold uint64?
  rw [word]
  split
  · rename_i cs signed
    rw [nat?_eq_some_iff]
    constructor
    · rintro ⟨zeros, rfl⟩
      exact ⟨true, zeros, String.toList_inj.mp (signed.trans (padded_toList true zeros _).symm)⟩
    · rintro ⟨plus, zeros, rfl⟩
      rw [padded_toList] at signed
      cases plus
      · exact absurd signed (zeros_append_ne_plus zeros _ cs)
      · exact ⟨zeros, (List.cons.inj signed).2.symm⟩
  · rename_i unsigned
    rw [nat?_eq_some_iff]
    constructor
    · rintro ⟨zeros, written⟩
      exact ⟨false, zeros, String.toList_inj.mp (written.trans (padded_toList false zeros _).symm)⟩
    · rintro ⟨plus, zeros, rfl⟩
      cases plus
      · exact ⟨zeros, padded_toList false zeros _⟩
      · exact absurd (padded_toList true zeros _) (unsigned _)

end Padded

end TreeQuery.Numeral
