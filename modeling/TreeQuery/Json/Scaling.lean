import TreeQuery.Json.Basic

/-!
The double a JSON literal with a fraction or an exponent stands for. The significand is kept in
64 bits: digits that no longer fit are dropped, each one before the point counting as a power of
ten. It is then scaled by doubles that hold powers of ten, with one rounding for each step, so
the result may be the neighbour of the nearest double.
-/

namespace TreeQuery.Json

def powerOfTen (k : Nat) : Double := Double.ofInt (Nat.pow 10 k)

/-- The greatest power of ten that one step applies. -/
def stepLimit : Nat := 308

/-- Scales by `10 ^ e`; a literal that is too large is refused. -/
def scale? (x : Double) (e : Int) : Option Double :=
  if e.natAbs ≤ stepLimit then
    if 0 ≤ e then
      let y := x.mul (powerOfTen e.natAbs)
      if y.isInfinite then none else some y
    else some (x.div (powerOfTen e.natAbs))
  else if x.isZero then some x
  else if 0 ≤ e then none
  else scale? (x.div (powerOfTen stepLimit)) (e + stepLimit)
termination_by e.natAbs
decreasing_by
  have : stepLimit = 308 := rfl
  omega

/-- Digits taken one by one while they fit in 64 bits: the significand, how many were taken, and
what is left. -/
def takeFitting : Nat → List Char → Nat × Nat × List Char
  | s, [] => (s, 0, [])
  | s, c :: r =>
    if c.isDigit ∧ s * 10 + (c.toNat - 48) < UInt64.size then
      let (s', n, r') := takeFitting (s * 10 + (c.toNat - 48)) r
      (s', n + 1, r')
    else (s, 0, c :: r)

/-- An exponent from here on is out of range. -/
def exponentLimit : Nat := 0x80000000

/-- What follows the letter of an exponent, for a significand and the exponent so far. -/
def readPower? (negative : Bool) (s : Nat) (e : Int) (cs : List Char) :
    Option (Double × List Char) :=
  let (down, cs) := match cs with
    | '-' :: r => (true, r)
    | '+' :: r => (false, r)
    | r => (false, r)
  let digits := cs.takeWhile Char.isDigit
  let rest := cs.dropWhile Char.isDigit
  if digits.isEmpty then none
  else
    let power := Nat.ofDigitChars 10 digits 0
    if exponentLimit ≤ power then
      if s ≠ 0 ∧ !down then none else some (Double.zero negative, rest)
    else finish (if down then e - power else e + power) rest
where
  finish (e : Int) (rest : List Char) : Option (Double × List Char) :=
    (scale? (Double.ofInt s) e).map (fun x => (if negative then x.neg else x, rest))

def isExponentLetter (c : Char) : Bool := c = 'e' || c = 'E'

/-- What follows the digits of a literal that has become a double. -/
def readTail? (negative : Bool) (s : Nat) (e : Int) (cs : List Char) :
    Option (Double × List Char) :=
  match cs with
  | c :: r => if isExponentLetter c then readPower? negative s e r
    else readPower?.finish negative s e (c :: r)
  | [] => readPower?.finish negative s e []

/-- What follows the point; at least one digit is required. -/
def readFraction? (negative : Bool) (s : Nat) (e : Int) (cs : List Char) :
    Option (Double × List Char) :=
  match cs with
  | c :: _ => if c.isDigit then
      let (s', n, r) := takeFitting s cs
      readTail? negative s' (e - n) (r.dropWhile Char.isDigit)
    else none
  | [] => none

/-- A literal after its sign. A leading zero stands alone. -/
def readNumber? (negative : Bool) (cs : List Char) : Option (Number × List Char) :=
  match cs with
  | [] => none
  | c :: r =>
    if !c.isDigit then none
    else if c = '0' ∧ (r.head?.any Char.isDigit) then none
    else
      let (s, _, r) := takeFitting 0 cs
      let extra := (r.takeWhile Char.isDigit).length
      let double (x : Option (Double × List Char)) := x.map (fun p => (Number.double p.1, p.2))
      match r.dropWhile Char.isDigit with
      | '.' :: r => double (readFraction? negative s extra r)
      | r =>
        if extra = 0 ∧ !(r.head?.any isExponentLetter) then some (integer s, r)
        else double (readTail? negative s extra r)
where
  integer (s : Nat) : Number :=
    if !negative then .natural (UInt64.ofNat s)
    else if 0 < s ∧ Numeral.fitsInt64 (-(s : Int)) then .negative (Int64.ofInt (-(s : Int)))
    else .double ((Double.ofInt s).neg)

end TreeQuery.Json
