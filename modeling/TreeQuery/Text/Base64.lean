/-!
Base64 over the standard alphabet. Reading is strict: padding is required, nothing follows it,
and the bits that padding leaves over are zero, so every byte string has one written form.
-/

namespace TreeQuery.Base64

def letter (n : Nat) : Char :=
  if n < 26 then Char.ofNat (65 + n)
  else if n < 52 then Char.ofNat (71 + n)
  else if n < 62 then Char.ofNat (n - 4)
  else if n = 62 then '+'
  else '/'

def sextet? (c : Char) : Option Nat :=
  if c.isUpper then some (c.toNat - 65)
  else if c.isLower then some (c.toNat - 71)
  else if c.isDigit then some (c.toNat + 4)
  else if c = '+' then some 62
  else if c = '/' then some 63
  else none

def encode : List UInt8 → List Char
  | [] => []
  | [a] =>
    [letter (a.toNat / 4), letter (a.toNat % 4 * 16), '=', '=']
  | [a, b] =>
    [letter (a.toNat / 4), letter (a.toNat % 4 * 16 + b.toNat / 16),
      letter (b.toNat % 16 * 4), '=']
  | a :: b :: c :: r =>
    letter (a.toNat / 4) :: letter (a.toNat % 4 * 16 + b.toNat / 16) ::
      letter (b.toNat % 16 * 4 + c.toNat / 64) :: letter (c.toNat % 64) :: encode r

/-- The bytes of a last group that may be padded. -/
def decodeLast? (w x y z : Char) : Option (List UInt8) := do
  let i ← sextet? w
  let j ← sextet? x
  if y = '=' then
    if z = '=' ∧ j % 16 = 0 then some [UInt8.ofNat (i * 4 + j / 16)] else none
  else
    let k ← sextet? y
    if z = '=' then
      if k % 4 = 0 then
        some [UInt8.ofNat (i * 4 + j / 16), UInt8.ofNat (j % 16 * 16 + k / 4)]
      else none
    else
      let l ← sextet? z
      some [UInt8.ofNat (i * 4 + j / 16), UInt8.ofNat (j % 16 * 16 + k / 4),
        UInt8.ofNat (k % 4 * 64 + l)]

def decode? : List Char → Option (List UInt8)
  | [] => some []
  | [w, x, y, z] => decodeLast? w x y z
  | w :: x :: y :: z :: r => do
    let i ← sextet? w
    let j ← sextet? x
    let k ← sextet? y
    let l ← sextet? z
    let rest ← decode? r
    some (UInt8.ofNat (i * 4 + j / 16) :: UInt8.ofNat (j % 16 * 16 + k / 4) ::
      UInt8.ofNat (k % 4 * 64 + l) :: rest)
  | _ => none

def encodeText (s : String) : String := String.ofList (encode s.toUTF8.toList)

end TreeQuery.Base64
