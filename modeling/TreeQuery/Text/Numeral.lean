/-!
Whole numbers in decimal. Reading takes an optional sign and at least one ASCII digit, with
leading zeros allowed, and refuses what does not fit the word.
-/

namespace TreeQuery.Numeral

/-- The value of a non-empty run of ASCII digits. -/
def nat? (cs : List Char) : Option Nat :=
  if cs.isEmpty || !cs.all Char.isDigit then none else some (Nat.ofDigitChars 10 cs 0)

/-- Reads an optional sign and the digits after it. -/
def int? : List Char → Option Int
  | '+' :: cs => (nat? cs).map Int.ofNat
  | '-' :: cs => (nat? cs).map (fun n => -(n : Int))
  | cs => (nat? cs).map Int.ofNat

def fitsInt64 (i : Int) : Bool := Int64.minValue.toInt ≤ i && i ≤ Int64.maxValue.toInt

def int64? (s : String) : Option Int64 :=
  (int? s.toList).bind (fun i => if fitsInt64 i then some (Int64.ofInt i) else none)

/-- A minus sign is refused, also before zero. -/
def uint64? (s : String) : Option UInt64 :=
  let digits := match s.toList with
    | '+' :: cs => cs
    | cs => cs
  (nat? digits).bind (fun n => if n < UInt64.size then some (UInt64.ofNat n) else none)

def ofNat (n : Nat) : String := String.ofList (Nat.toDigits 10 n)

def ofInt : Int → String
  | .ofNat n => ofNat n
  | .negSucc n => "-" ++ ofNat (n + 1)

def ofInt64 (i : Int64) : String := ofInt i.toInt

def ofUInt64 (n : UInt64) : String := ofNat n.toNat

theorem nat?_toDigits (n : Nat) : nat? (Nat.toDigits 10 n) = some n := by
  have hd : (Nat.toDigits 10 n).all Char.isDigit = true :=
    List.all_eq_true.mpr (fun c hc => Nat.isDigit_of_mem_toDigits (by decide) (by decide) hc)
  have hn : (Nat.toDigits 10 n).isEmpty = false := by
    cases h : Nat.toDigits 10 n with
    | nil => exact absurd h Nat.toDigits_ne_nil
    | cons _ _ => rfl
  simp [nat?, hd, hn, Nat.ofDigitChars_toDigits (b := 10) (n := n) (by decide) (by decide)]

end TreeQuery.Numeral
