import TreeQuery.Json.Scaling

/-!
Reads JSON text. Containers nest at most 127 deep, control characters in strings are escaped,
and a surrogate stands only as the first or second half of a pair. The fuel counts steps and is
taken from the length of the text, which no reading exceeds.
-/

namespace TreeQuery.Json

def isGap (c : Char) : Bool := c = ' ' || c = '\n' || c = '\t' || c = '\r'

def skipGap (cs : List Char) : List Char := cs.dropWhile isGap

def hexDigit? (c : Char) : Option Nat :=
  if c.isDigit then some (c.toNat - 48)
  else if 'a' ≤ c ∧ c ≤ 'f' then some (c.toNat - 87)
  else if 'A' ≤ c ∧ c ≤ 'F' then some (c.toNat - 55)
  else none

def readUnit? : List Char → Option (Nat × List Char)
  | a :: b :: c :: d :: r => do
    let a ← hexDigit? a
    let b ← hexDigit? b
    let c ← hexDigit? c
    let d ← hexDigit? d
    some (((a * 16 + b) * 16 + c) * 16 + d, r)
  | _ => none

/-- A character written as one or two units of four hexadecimal digits. -/
def readUnits? (cs : List Char) : Option (Char × List Char) := do
  let (high, r) ← readUnit? cs
  if 0xDC00 ≤ high ∧ high ≤ 0xDFFF then none
  else if 0xD800 ≤ high ∧ high ≤ 0xDBFF then
    match r with
    | '\\' :: 'u' :: r => do
      let (low, r) ← readUnit? r
      if 0xDC00 ≤ low ∧ low ≤ 0xDFFF then
        some (Char.ofNat (0x10000 + (high - 0xD800) * 0x400 + (low - 0xDC00)), r)
      else none
    | _ => none
  else some (Char.ofNat high, r)

/-- What follows a backslash. -/
def readEscape? : List Char → Option (Char × List Char)
  | [] => none
  | c :: r =>
    if c = '"' ∨ c = '\\' ∨ c = '/' then some (c, r)
    else if c = 'b' then some ('\x08', r)
    else if c = 'f' then some ('\x0c', r)
    else if c = 'n' then some ('\n', r)
    else if c = 'r' then some ('\r', r)
    else if c = 't' then some ('\t', r)
    else if c = 'u' then readUnits? r
    else none

/-- The characters up to the closing quote. -/
def readChars? : Nat → List Char → Option (List Char × List Char)
  | 0, _ => none
  | _ + 1, [] => none
  | fuel + 1, c :: r =>
    if c = '"' then some ([], r)
    else if c = '\\' then do
      let (d, r) ← readEscape? r
      let (ds, r) ← readChars? fuel r
      some (d :: ds, r)
    else if c.toNat < 0x20 then none
    else do
      let (ds, r) ← readChars? fuel r
      some (c :: ds, r)

def readString? (fuel : Nat) : List Char → Option (String × List Char)
  | '"' :: r => (readChars? fuel r).map (fun p => (String.ofList p.1, p.2))
  | _ => none

def readWord? (word : List Char) (j : Json) (cs : List Char) : Option (Json × List Char) :=
  if word.isPrefixOf cs then some (j, cs.drop word.length) else none

mutual

/-- A value at the front of the text, with room for `depth` containers in it. -/
def readValue? : (fuel depth : Nat) → List Char → Option (Json × List Char)
  | 0, _, _ => none
  | _ + 1, _, [] => none
  | fuel + 1, depth, c :: r =>
    if c = 'n' then readWord? ['n', 'u', 'l', 'l'] .null (c :: r)
    else if c = 't' then readWord? ['t', 'r', 'u', 'e'] (.bool true) (c :: r)
    else if c = 'f' then readWord? ['f', 'a', 'l', 's', 'e'] (.bool false) (c :: r)
    else if c = '"' then (readString? fuel (c :: r)).map (fun p => (.string p.1, p.2))
    else if c = '-' then (readNumber? true r).map (fun p => (.number p.1, p.2))
    else if c.isDigit then (readNumber? false (c :: r)).map (fun p => (.number p.1, p.2))
    else if c = '[' then
      match depth with
      | 0 => none
      | depth + 1 => (readItems? fuel depth (skipGap r)).map (fun p => (.array p.1, p.2))
    else if c = '\x7b' then
      match depth with
      | 0 => none
      | depth + 1 => (readMembers? fuel depth (skipGap r)).map (fun p => (ofMembers p.1, p.2))
    else none
termination_by structural fuel => fuel

/-- What follows an opening bracket. -/
def readItems? : (fuel depth : Nat) → List Char → Option (List Json × List Char)
  | 0, _, _ => none
  | fuel + 1, depth, cs =>
    if cs.head? = some ']' then some ([], cs.tail)
    else readMoreItems? fuel depth cs
termination_by structural fuel => fuel

def readMoreItems? : (fuel depth : Nat) → List Char → Option (List Json × List Char)
  | 0, _, _ => none
  | fuel + 1, depth, cs => do
    let (j, r) ← readValue? fuel depth cs
    match skipGap r with
    | ']' :: r => some ([j], r)
    | ',' :: r => do
      let (js, r) ← readMoreItems? fuel depth (skipGap r)
      some (j :: js, r)
    | _ => none
termination_by structural fuel => fuel

/-- What follows an opening brace. -/
def readMembers? : (fuel depth : Nat) → List Char → Option (List (String × Json) × List Char)
  | 0, _, _ => none
  | fuel + 1, depth, cs =>
    if cs.head? = some '\x7d' then some ([], cs.tail)
    else readMoreMembers? fuel depth cs
termination_by structural fuel => fuel

def readMoreMembers? :
    (fuel depth : Nat) → List Char → Option (List (String × Json) × List Char)
  | 0, _, _ => none
  | fuel + 1, depth, cs => do
    let (name, r) ← readString? fuel cs
    match skipGap r with
    | ':' :: r => do
      let (j, r) ← readValue? fuel depth (skipGap r)
      match skipGap r with
      | '\x7d' :: r => some ([(name, j)], r)
      | ',' :: r => do
        let (ms, r) ← readMoreMembers? fuel depth (skipGap r)
        some ((name, j) :: ms, r)
      | _ => none
    | _ => none
termination_by structural fuel => fuel

end

def maxDepth : Nat := 127

def fuelFor (cs : List Char) : Nat := 3 * cs.length + 3

def parse? (text : String) : Option Json := do
  let cs := skipGap text.toList
  let (j, r) ← readValue? (fuelFor cs) maxDepth cs
  if (skipGap r).isEmpty then some j else none

/-- The members of an object in the order of the text. -/
def parseMembers? (text : String) : Option (List (String × Json)) := do
  match skipGap text.toList with
  | '\x7b' :: cs => do
    let (ms, r) ← readMembers? (fuelFor cs) (maxDepth - 1) (skipGap cs)
    if (skipGap r).isEmpty then some ms else none
  | _ => none

end TreeQuery.Json
