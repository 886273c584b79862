import TreeQuery.Text.FreshName

/-!
Labels are the aliases under which the SQL of one request knows its tables and columns. Table
labels are never given out twice; column labels repeat the name of the column, unless all labels
are made short.
-/

namespace TreeQuery.Plan

structure Namespace where
  minify : Bool
  used : List String
  next : Nat

namespace Namespace

/-- The label that statements give to a batch scope. -/
def reserved : List String := ["temp"]

def start (minify : Bool) : Namespace := ⟨minify, reserved, 0⟩

def letter (n : Nat) : Char := Char.ofNat (97 + n % 26)

/-- The number in base 26, `a` for zero. -/
def letters (n : Nat) : List Char :=
  if n < 26 then [letter n] else letters (n / 26) ++ [letter n]
termination_by n
decreasing_by omega

def short (n : Nat) : String := String.ofList (letters n)

/-- The first number from `n` on whose letters are free. -/
def searchShort (used : List String) (n : Nat) : Nat → Nat
  | 0 => n
  | fuel + 1 => if used.contains (short n) then searchShort used (n + 1) fuel else n

def takeShort (ns : Namespace) : String × Namespace :=
  let n := searchShort ns.used ns.next ns.used.length
  (short n, { ns with used := short n :: ns.used, next := n + 1 })

def takeTable (ns : Namespace) (name : String) : String × Namespace :=
  if ns.minify then ns.takeShort
  else
    let label := FreshName.choose ns.used (if name.isEmpty then "t" else name)
    (label, { ns with used := label :: ns.used })

def takeColumn (ns : Namespace) (name : String) : String × Namespace :=
  if ns.minify then ns.takeShort else (name, ns)

end Namespace

end TreeQuery.Plan
