/-!
Binary floating-point numbers of 64 bits, with exact arithmetic on natural numbers behind every
operation: a finite number is a significand times a power of two, and a quotient of naturals is
rounded to the nearest number, a half going to the even neighbour.
-/

namespace TreeQuery

structure Double where
  bits : UInt64
  deriving DecidableEq

namespace Double

/-- Numbers whose bits count from here on are negative. -/
def signBit : Nat := Nat.pow 2 63

/-- The fraction counts up to here. -/
def fractionBound : Nat := Nat.pow 2 52

def isNegative (x : Double) : Bool := signBit ≤ x.bits.toNat

def exponentField (x : Double) : Nat := x.bits.toNat / fractionBound % 2048

def fractionField (x : Double) : Nat := x.bits.toNat % fractionBound

def isFinite (x : Double) : Bool := x.exponentField ≠ 2047

def isNaN (x : Double) : Bool := x.exponentField = 2047 && x.fractionField ≠ 0

def isInfinite (x : Double) : Bool := x.exponentField = 2047 && x.fractionField = 0

def significand (x : Double) : Nat :=
  if x.exponentField = 0 then x.fractionField else fractionBound + x.fractionField

/-- A finite number has the magnitude `significand * 2 ^ exponent`. -/
def exponent (x : Double) : Int := (max x.exponentField 1 : Nat) - 1075

def isZero (x : Double) : Bool := x.exponentField = 0 && x.fractionField = 0

def ofMagnitude (negative : Bool) (n : Nat) : Double :=
  ⟨UInt64.ofNat (n + if negative then signBit else 0)⟩

def zero (negative : Bool) : Double := ofMagnitude negative 0

def infinity (negative : Bool) : Double := ofMagnitude negative (2047 * fractionBound)

def nan (negative : Bool) : Double :=
  ofMagnitude negative (2047 * fractionBound + fractionBound / 2)

/-- The quotient rounded to a natural number, a half going to the even neighbour. -/
def roundHalfEven (n d : Nat) : Nat :=
  if 2 * (n % d) < d then n / d
  else if d < 2 * (n % d) then n / d + 1
  else n / d + n / d % 2

/-- The exponent of the significand's last bit for a quotient of this size. -/
def unitExponent (n d : Nat) : Int :=
  let guess : Int := (Nat.log2 n : Int) - (Nat.log2 d : Int)
  let below : Bool :=
    if 0 ≤ guess then n < d * Nat.pow 2 guess.toNat else n * Nat.pow 2 (-guess).toNat < d
  max ((if below then guess - 1 else guess) - 52) (-1074)

/-- The number nearest to a quotient; what is too large becomes infinite. -/
def ofRatio (negative : Bool) (n d : Nat) : Double :=
  if n = 0 then zero negative
  else
    let q := unitExponent n d
    let m := if 0 ≤ q then roundHalfEven n (d * Nat.pow 2 q.toNat)
      else roundHalfEven (n * Nat.pow 2 (-q).toNat) d
    let magnitude := (q + 1074).toNat * fractionBound + m
    if magnitude < 2047 * fractionBound then ofMagnitude negative magnitude else infinity negative

def ofInt (i : Int) : Double := ofRatio (i < 0) i.natAbs 1

def ofInt64 (i : Int64) : Double := ofInt i.toInt

/-- The magnitude of a finite number as a quotient. -/
def ratio (x : Double) : Nat × Nat :=
  if 0 ≤ x.exponent then (x.significand * Nat.pow 2 x.exponent.toNat, 1)
  else (x.significand, Nat.pow 2 (-x.exponent).toNat)

def mul (x y : Double) : Double :=
  let negative := x.isNegative != y.isNegative
  if x.isNaN || y.isNaN then nan false
  else if x.isInfinite || y.isInfinite then
    if x.isZero || y.isZero then nan false else infinity negative
  else ofRatio negative (x.ratio.1 * y.ratio.1) (x.ratio.2 * y.ratio.2)

def div (x y : Double) : Double :=
  let negative := x.isNegative != y.isNegative
  if x.isNaN || y.isNaN || (x.isInfinite && y.isInfinite) || (x.isZero && y.isZero) then nan false
  else if x.isInfinite || y.isZero then infinity negative
  else if y.isInfinite then zero negative
  else ofRatio negative (x.ratio.1 * y.ratio.2) (x.ratio.2 * y.ratio.1)

def neg (x : Double) : Double := ⟨x.bits ^^^ 0x8000000000000000⟩

/-- Numeric equality: both zeros are one number, and a NaN is equal to nothing. -/
def numEq (x y : Double) : Bool :=
  !x.isNaN && !y.isNaN && (x.bits == y.bits || (x.isZero && y.isZero))

/-- Finite, with no fractional part. -/
def isIntegral (x : Double) : Bool := x.isFinite && x.ratio.1 % x.ratio.2 = 0

def clampInt64 (i : Int) : Int64 :=
  if i < Int64.minValue.toInt then Int64.minValue
  else if Int64.maxValue.toInt < i then Int64.maxValue
  else Int64.ofInt i

/-- The integer part of a finite number. -/
def truncate (x : Double) : Int :=
  let n : Int := (x.ratio.1 / x.ratio.2 : Nat)
  if x.isNegative then -n else n

/-- The integer part, held at the ends of the range; a NaN gives zero. -/
def toInt64 (x : Double) : Int64 :=
  if x.isNaN then 0
  else if x.isInfinite then if x.isNegative then Int64.minValue else Int64.maxValue
  else clampInt64 x.truncate

/-- The magnitude is below `2 ^ 63`. -/
def isBelowInt64 (x : Double) : Bool := x.isFinite && x.ratio.1 < Nat.pow 2 63 * x.ratio.2

end Double

end TreeQuery
