import TreeQuery.Text.Numeral

/-!
Names that are not taken yet: the name asked for, or the first of `name_1`, `name_2`, … that is
free. One suffix more than there are taken names always suffices.
-/

namespace TreeQuery.FreshName

def suffixed (name : String) (k : Nat) : String := name ++ "_" ++ Numeral.ofNat k

def search (taken : List String) (name : String) (k : Nat) : Nat → String
  | 0 => suffixed name k
  | fuel + 1 =>
    if taken.contains (suffixed name k) then search taken name (k + 1) fuel else suffixed name k

def choose (taken : List String) (name : String) : String :=
  if taken.contains name then search taken name 1 taken.length else name

end TreeQuery.FreshName
