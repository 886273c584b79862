import TreeQuery.Error
import TreeQuery.Value.Printer

/-!
The arguments of a field. A null argument counts as one that was not given.
-/

namespace TreeQuery

structure Arguments where
  entries : List (String × Value)

inductive ArgumentError where
  | notACount (name : String) (found : Value)
  | emptyScope (location : String)

def ArgumentError.toError : ArgumentError → Error
  | .notACount name found => .invalidArgument
      ("`" ++ name ++ "` must be a non-negative integer; got " ++ found.shown)
  | .emptyScope location => .invalidArgument ("batch scope for `" ++ location ++ "` is empty")

namespace Arguments

def empty : Arguments := ⟨[]⟩

def ofPairs (ps : List (String × Value)) : Arguments := ⟨Fields.ofPairs ps⟩

def insert (a : Arguments) (name : String) (v : Value) : Arguments :=
  ⟨Fields.insert a.entries name v⟩

def size (a : Arguments) : Nat := a.entries.length

/-- The value as it was given, null if there is none. -/
def value (a : Arguments) (name : String) : Value := (Fields.get? a.entries name).getD .null

def get? (a : Arguments) (name : String) : Option Value :=
  (Fields.get? a.entries name).filter (fun v => !v.isNull)

def contains (a : Arguments) (name : String) : Bool := (a.get? name).isSome

def text? (a : Arguments) (name : String) : Option String := (a.get? name).bind Value.text?

/-- A count is a non-negative integer, also when it is written as a numeral. -/
def count? (a : Arguments) (name : String) : Except ArgumentError (Option Nat) :=
  match a.get? name with
  | none => .ok none
  | some v => match v.int? with
    | some i => if 0 ≤ i.toInt then .ok (some i.toInt.toNat) else .error (.notACount name v)
    | none => .error (.notACount name v)

end Arguments

end TreeQuery
