import TreeQuery.Arguments

/-!
What a request asks for: a field, its arguments, and what to take from the objects it leads to.
-/

namespace TreeQuery

structure Selection where
  name : String
  label : Option String
  arguments : Arguments
  selections : List Selection

/-- The name of the field in the response. -/
def Selection.responseKey (s : Selection) : String := s.label.getD s.name

end TreeQuery
