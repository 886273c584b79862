/-!
The parts of a name that dots divide. There is always at least one part, and parts may be empty.
-/

namespace TreeQuery.Segments

def split : List Char → List (List Char)
  | [] => [[]]
  | c :: r =>
    if c = '.' then [] :: split r
    else match split r with
      | [] => [[c]]
      | s :: ss => (c :: s) :: ss

def ofName (name : String) : List String := (split name.toList).map String.ofList

def last (name : String) : String := (ofName name).getLastD ""

theorem split_ne_nil (cs : List Char) : split cs ≠ [] := by
  cases cs with
  | nil => simp [split]
  | cons c r =>
    simp only [split]
    split
    · simp
    · cases split r <;> simp

end TreeQuery.Segments
