/-!
Maps from names to values that remember the order in which names first arrived. Writing to a
name that is already there changes its value and keeps its place.
-/

namespace TreeQuery

/-- Named entries in the order of their first insertion. -/
abbrev Fields (α : Type) := List (String × α)

namespace Fields

variable {α β : Type}

def get? : Fields α → String → Option α
  | [], _ => none
  | (m, v) :: r, n => if m = n then some v else get? r n

def contains (fs : Fields α) (n : String) : Bool := (get? fs n).isSome

def insert : Fields α → String → α → Fields α
  | [], n, v => [(n, v)]
  | (m, w) :: r, n, v => if m = n then (m, v) :: r else (m, w) :: insert r n v

def erase (fs : Fields α) (n : String) : Fields α := fs.filter (fun f => f.1 ≠ n)

def names (fs : Fields α) : List String := fs.map Prod.fst

def ofPairs (ps : List (String × α)) : Fields α :=
  ps.foldl (fun fs p => insert fs p.1 p.2) []

theorem get?_insert (fs : Fields α) (n m : String) (v : α) :
    get? (insert fs n v) m = if n = m then some v else get? fs m := by
  induction fs with
  | nil => simp [insert, get?]
  | cons f r ih =>
    obtain ⟨k, w⟩ := f
    by_cases hk : k = n
    · subst hk
      by_cases hm : k = m <;> simp [insert, get?, hm]
    · by_cases hm : k = m
      · subst hm
        simp [insert, get?, hk, Ne.symm hk]
      · simp [insert, get?, hk, hm, ih]

theorem names_insert (fs : Fields α) (n : String) (v : α) :
    names (insert fs n v) = if n ∈ names fs then names fs else names fs ++ [n] := by
  induction fs with
  | nil => simp [insert, names]
  | cons f r ih =>
    obtain ⟨k, w⟩ := f
    by_cases hk : k = n
    · simp [insert, names, hk]
    · have ih' : List.map Prod.fst (insert r n v) =
          if n ∈ List.map Prod.fst r then List.map Prod.fst r else List.map Prod.fst r ++ [n] := ih
      simp only [insert, hk, if_false, names, List.map_cons, List.mem_cons, Ne.symm hk,
        false_or, ih', List.cons_append]
      split <;> rfl

end Fields

end TreeQuery
