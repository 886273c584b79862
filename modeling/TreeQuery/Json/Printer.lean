import TreeQuery.Json.Basic
import TreeQuery.Text.Numeral
import TreeQuery.Text.Quoted

/-!
Writes JSON text without gaps, and the form in which diagnostics show a document. Members are
written in the order they have.
-/

namespace TreeQuery.Json

/-- An exponent is written from `1e16` on and below `1e-5`; what is not finite is null. -/
def numberLayout : Double.Layout := ⟨-5, 16, true, false, "null", "null"⟩

def Number.text : Number → String
  | .natural n => Numeral.ofUInt64 n
  | .negative i => Numeral.ofInt64 i
  | .double x => numberLayout.write x

def hexChar (n : Nat) : Char := Nat.digitChar n

def escape (c : Char) : List Char :=
  if c = '"' then ['\\', '"']
  else if c = '\\' then ['\\', '\\']
  else if c = '\x08' then ['\\', 'b']
  else if c = '\x0c' then ['\\', 'f']
  else if c = '\n' then ['\\', 'n']
  else if c = '\r' then ['\\', 'r']
  else if c = '\t' then ['\\', 't']
  else if c.toNat < 0x20 then
    ['\\', 'u', '0', '0', hexChar (c.toNat / 16), hexChar (c.toNat % 16)]
  else [c]

def quoted (s : String) : List Char := '"' :: s.toList.flatMap escape ++ ['"']

mutual

def chars : Json → List Char
  | .null => ['n', 'u', 'l', 'l']
  | .bool true => ['t', 'r', 'u', 'e']
  | .bool false => ['f', 'a', 'l', 's', 'e']
  | .number n => n.text.toList
  | .string s => quoted s
  | .array items => '[' :: itemChars true items ++ [']']
  | .object members => '\x7b' :: memberChars true members ++ ['\x7d']

/-- Items with a comma before each but the first. -/
def itemChars : (first : Bool) → List Json → List Char
  | _, [] => []
  | first, j :: r => (if first then [] else [',']) ++ chars j ++ itemChars false r

def memberChars : (first : Bool) → List (String × Json) → List Char
  | _, [] => []
  | first, (n, j) :: r =>
    (if first then [] else [',']) ++ quoted n ++ ':' :: chars j ++ memberChars false r

end

def text (j : Json) : String := String.ofList j.chars

mutual

/-- The document with the name of its kind, as diagnostics show it. -/
def shown : Json → String
  | .null => "Null"
  | .bool true => "Bool(true)"
  | .bool false => "Bool(false)"
  | .number n => "Number(" ++ n.text ++ ")"
  | .string s => "String(" ++ Quoted.quote s ++ ")"
  | .array items => "Array [" ++ String.intercalate ", " (shownItems items) ++ "]"
  | .object members =>
    "Object \x7b" ++ String.intercalate ", " (shownMembers members) ++ "\x7d"

def shownItems : List Json → List String
  | [] => []
  | j :: r => shown j :: shownItems r

def shownMembers : List (String × Json) → List String
  | [] => []
  | (n, j) :: r => (Quoted.quote n ++ ": " ++ shown j) :: shownMembers r

end

end TreeQuery.Json
