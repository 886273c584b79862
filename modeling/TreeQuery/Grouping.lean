/-!
Values put with the other values of their key. Keys stand in the order in which they first
appear, and the values of a key in the order in which they came.
-/

namespace TreeQuery

abbrev Grouping (κ α : Type) := List (κ × List α)

namespace Grouping

variable {κ α : Type} [DecidableEq κ]

def add (k : κ) (v : α) : Grouping κ α → Grouping κ α
  | [] => [(k, [v])]
  | (l, vs) :: r => if l = k then (l, vs ++ [v]) :: r else (l, vs) :: add k v r

def ofPairs (ps : List (κ × α)) : Grouping κ α := ps.foldl (fun g p => g.add p.1 p.2) []

/-- The values of a key, none if the key did not appear. -/
def valuesOf (g : Grouping κ α) (k : κ) : List α :=
  match g with
  | [] => []
  | (l, vs) :: r => if l = k then vs else valuesOf r k

def keys (g : Grouping κ α) : List κ := g.map Prod.fst

theorem valuesOf_add (g : Grouping κ α) (k l : κ) (v : α) :
    valuesOf (add k v g) l = if k = l then valuesOf g l ++ [v] else valuesOf g l := by
  induction g with
  | nil => simp [add, valuesOf]
  | cons p r ih =>
    obtain ⟨m, vs⟩ := p
    by_cases hm : m = k
    · subst hm
      by_cases hl : m = l <;> simp [add, valuesOf, hl]
    · by_cases hl : m = l
      · subst hl
        simp [add, valuesOf, hm, Ne.symm hm]
      · simp [add, valuesOf, hm, hl, ih]

theorem keys_add (g : Grouping κ α) (k : κ) (v : α) :
    keys (add k v g) = if k ∈ keys g then keys g else keys g ++ [k] := by
  induction g with
  | nil => simp [add, keys]
  | cons p r ih =>
    obtain ⟨m, vs⟩ := p
    by_cases hm : m = k
    · simp [add, keys, hm]
    · have ih' : List.map Prod.fst (add k v r) =
          if k ∈ List.map Prod.fst r then List.map Prod.fst r else List.map Prod.fst r ++ [k] := ih
      simp only [add, hm, if_false, keys, List.map_cons, List.mem_cons, Ne.symm hm, false_or, ih',
        List.cons_append]
      split <;> rfl

end Grouping

end TreeQuery
