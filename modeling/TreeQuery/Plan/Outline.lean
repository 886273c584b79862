import TreeQuery.Plan.Basic

/-!
Plans written as a list in which each node names its parent by position. A parent comes before
its children and is a table.
-/

namespace TreeQuery.Plan

/-- A node without its children. -/
inductive Item where
  | table (t : Table)
  | column (c : Column)
  | composite (c : Composite)
  | noop (fieldName : String) (location : Location)

def Item.table? : Item → Option Table
  | .table t => some t
  | _ => none

structure Entry where
  parent : Nat
  item : Item

/-- The first entry is the root, and its parent means nothing. -/
abbrev Outline := List Entry

namespace Outline

def parentOf? (o : Outline) (i : Nat) : Option Table :=
  if i = 0 then none
  else (o[i]?.bind (fun e => o[e.parent]?)).bind (fun e => e.item.table?)

/-- Every entry but the first hangs below an earlier table. -/
def isTree (o : Outline) : Bool :=
  (List.range o.length).all (fun i => i = 0 ||
    (o[i]?.any (fun e => e.parent < i) && (parentOf? o i).isSome))

def childrenOf (o : Outline) (i : Nat) : List Nat :=
  (List.range o.length).filter (fun j => i < j && (o[j]?.map Entry.parent) = some i)

/-- The tree below an entry. Children have greater positions, so the fuel covers all of it. -/
def nodeFrom (o : Outline) : Nat → Nat → Option Node
  | 0, _ => none
  | fuel + 1, i => o[i]?.map (fun e => match e.item with
    | .table t => .table t ((childrenOf o i).filterMap (nodeFrom o fuel))
    | .column c => .column c
    | .composite c => .composite c
    | .noop f l => .noop f l)

def node? (o : Outline) (i : Nat) : Option Node := nodeFrom o (o.length - i) i

end Outline

end TreeQuery.Plan
