import TreeQuery.Text.FreshName
import TreeQuery.Value.Basic

/-!
The values bound to a statement. Each has a position, counted from one, and a name that no other
has.
-/

namespace TreeQuery

structure Params where
  entries : List (String × Value)

namespace Params

def empty : Params := ⟨[]⟩

def size (ps : Params) : Nat := ps.entries.length

def get? (ps : Params) (name : String) : Option Value := Fields.get? ps.entries name

def at? (ps : Params) (position : Nat) : Option Value :=
  match position with
  | 0 => none
  | n + 1 => ps.entries[n]?.map Prod.snd

def values (ps : Params) : List Value := ps.entries.map Prod.snd

def freshName (ps : Params) (name : String) : String :=
  FreshName.choose (Fields.names ps.entries) name

/-- Binds a value and returns its position. -/
def pushNamed (ps : Params) (name : String) (v : Value) : Nat × Params :=
  let ps' : Params := ⟨Fields.insert ps.entries (ps.freshName name) v⟩
  (ps'.size, ps')

def push (ps : Params) (v : Value) : Nat × Params :=
  ps.pushNamed ("p" ++ Numeral.ofNat (ps.size + 1)) v

end Params

end TreeQuery
