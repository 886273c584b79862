import TreeQuery.Double.Basic

/-!
Decimal text of floating-point numbers. Writing takes the fewest digits that read back as the
same number and, of those, the nearest; how they are laid out is a `Layout`. Reading rounds the
exact decimal once.
-/

namespace TreeQuery

/-- The number `coefficient * 10 ^ exponent`. -/
structure Decimal where
  coefficient : Nat
  exponent : Int

namespace Decimal

def digits (d : Decimal) : List Char := Nat.toDigits 10 d.coefficient

/-- The place of the point, counted from before the first digit. -/
def point (d : Decimal) : Int := d.digits.length + d.exponent

/-- Drops trailing zeros of the coefficient. -/
def trim (d : Decimal) : Nat → Decimal
  | 0 => d
  | fuel + 1 =>
    if d.coefficient ≠ 0 ∧ d.coefficient % 10 = 0 then
      trim ⟨d.coefficient / 10, d.exponent + 1⟩ fuel
    else d

/-- The double nearest to a decimal. The two early exits only spare writing out huge powers. -/
def toDouble (negative : Bool) (d : Decimal) : Double :=
  if d.coefficient = 0 then Double.zero negative
  else if 400 < d.point then Double.infinity negative
  else if d.point < -400 then Double.zero negative
  else if 0 ≤ d.exponent then
    Double.ofRatio negative (d.coefficient * Nat.pow 10 d.exponent.toNat) 1
  else Double.ofRatio negative d.coefficient (Nat.pow 10 (-d.exponent).toNat)

end Decimal

namespace Double

/-- The decimal exponent `k` with `10 ^ (k - 1) ≤ n / d < 10 ^ k`. -/
def decimalPoint (n d : Nat) : Int :=
  let guess : Int := (Nat.toDigits 10 n).length - (Nat.toDigits 10 d).length
  let reached : Bool :=
    if 0 ≤ guess then d * Nat.pow 10 guess.toNat ≤ n else d ≤ n * Nat.pow 10 (-guess).toNat
  if reached then guess + 1 else guess

/-- Whether a decimal reads back as the finite number `x` of positive magnitude. The bounds lie
half way to the neighbours, and belong to `x` iff its significand is even. -/
def readsAs (x : Double) (c : Nat) (e : Int) : Bool :=
  let lower := if x.fractionField = 0 ∧ 1 < x.exponentField then 4 * x.significand - 1
    else 4 * x.significand - 2
  let upper := 4 * x.significand + 2
  let two : Nat × Nat := if 0 ≤ x.exponent then (Nat.pow 2 x.exponent.toNat, 4)
    else (1, 4 * Nat.pow 2 (-x.exponent).toNat)
  let ten : Nat × Nat := if 0 ≤ e then (Nat.pow 10 e.toNat, 1) else (1, Nat.pow 10 (-e).toNat)
  let mid := c * ten.1 * two.2
  let lo := lower * two.1 * ten.2
  let hi := upper * two.1 * ten.2
  if x.significand % 2 = 0 then lo ≤ mid && mid ≤ hi else lo < mid && mid < hi

/-- The best decimal with spacing `10 ^ e` that reads back, if there is one. A tie between the
two neighbours goes up, or to the even one. -/
def onGrid? (x : Double) (e : Int) (tieUp : Bool) : Option Nat :=
  let (n, d) := x.ratio
  let (n, d) := if 0 ≤ e then (n, d * Nat.pow 10 e.toNat) else (n * Nat.pow 10 (-e).toNat, d)
  let c := n / d
  let down := readsAs x c e
  let up := readsAs x (c + 1) e
  if down && up then
    if 2 * (n % d) < d then some c
    else if d < 2 * (n % d) then some (c + 1)
    else if tieUp then some (c + 1) else some (c + c % 2)
  else if down then some c
  else if up then some (c + 1)
  else none

def shortestFrom (x : Double) (tieUp : Bool) (point : Int) : Nat → Nat → Decimal
  | 0, _ => ⟨0, 0⟩
  | fuel + 1, n =>
    match onGrid? x (point - n) tieUp with
    | some c => (Decimal.mk c (point - n)).trim 20
    | none => shortestFrom x tieUp point fuel (n + 1)

/-- The shortest decimal that reads back as a finite number's magnitude. -/
def shortest (x : Double) (tieUp : Bool) : Decimal :=
  if x.isZero then ⟨0, 0⟩
  else shortestFrom x tieUp (decimalPoint x.ratio.1 x.ratio.2) 20 1

/-- How digits become text: the point positions written without an exponent, whether a positive
exponent is signed, where ties go, and the words for what is not finite. -/
structure Layout where
  above : Int
  upTo : Int
  plus : Bool
  tieUp : Bool
  nan : String
  infinity : String

def Layout.magnitude (l : Layout) (d : Decimal) : List Char :=
  let ds := d.digits
  let k := d.point
  if d.coefficient = 0 then ['0', '.', '0']
  else if l.above < k ∧ k ≤ l.upTo then
    if k ≤ 0 then ['0', '.'] ++ List.replicate (-k).toNat '0' ++ ds
    else if k < ds.length then ds.take k.toNat ++ ['.'] ++ ds.drop k.toNat
    else ds ++ List.replicate (k.toNat - ds.length) '0' ++ ['.', '0']
  else
    let fraction := if ds.tail.isEmpty then [] else '.' :: ds.tail
    let power := k - 1
    let sign := if power < 0 then ['-'] else if l.plus then ['+'] else []
    ds.take 1 ++ fraction ++ ['e'] ++ sign ++ Nat.toDigits 10 power.natAbs

def Layout.write (l : Layout) (x : Double) : String :=
  if x.isNaN then l.nan
  else
    let sign := if x.isNegative then "-" else ""
    sign ++ (if x.isInfinite then l.infinity
      else String.ofList (l.magnitude (x.shortest l.tieUp)))

/-- Diagnostics write a number with an exponent below `1e-4` and from `1e16` on. -/
def diagnostic : Layout := ⟨-4, 16, false, true, "NaN", "inf"⟩

def lower (cs : List Char) : List Char := cs.map Char.toLower

def readExponent? : List Char → Option Int
  | [] => some 0
  | c :: cs => if c = 'e' ∨ c = 'E' then
      match cs with
      | '+' :: ds => natural? ds
      | '-' :: ds => (natural? ds).map (-·)
      | ds => natural? ds
    else none
where
  natural? (ds : List Char) : Option Int :=
    if ds.isEmpty || !ds.all Char.isDigit then none else some (Nat.ofDigitChars 10 ds 0)

/-- Digits around an optional point, at least one of them, then an optional exponent. -/
def readDecimal? (cs : List Char) : Option Decimal :=
  let whole := cs.takeWhile Char.isDigit
  let (fraction, rest) := match cs.dropWhile Char.isDigit with
    | '.' :: r => (r.takeWhile Char.isDigit, r.dropWhile Char.isDigit)
    | r => ([], r)
  if whole.isEmpty && fraction.isEmpty then none
  else (readExponent? rest).map
    (fun e => ⟨Nat.ofDigitChars 10 (whole ++ fraction) 0, e - fraction.length⟩)

def readMagnitude? (negative : Bool) (cs : List Char) : Option Double :=
  if lower cs = ['i', 'n', 'f'] ∨ lower cs = ['i', 'n', 'f', 'i', 'n', 'i', 't', 'y'] then
    some (infinity negative)
  else if lower cs = ['n', 'a', 'n'] then some (nan negative)
  else (readDecimal? cs).map (Decimal.toDouble negative)

/-- Reads a signed decimal, `inf`, `infinity` or `nan` in any case. -/
def read? (s : String) : Option Double :=
  match s.toList with
  | '+' :: cs => readMagnitude? false cs
  | '-' :: cs => readMagnitude? true cs
  | cs => readMagnitude? false cs

end Double

end TreeQuery
