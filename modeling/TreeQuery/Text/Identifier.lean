/-!
Quoted SQL identifiers. A double quote inside the name is written twice.
-/

namespace TreeQuery.Identifier

def escape : List Char → List Char
  | [] => []
  | c :: r => if c = '"' then '"' :: '"' :: escape r else c :: escape r

def quote (name : String) : String := String.ofList ('"' :: escape name.toList ++ ['"'])

/-- A name with each double quote in it replaced by two. -/
def doubled (name : String) : String :=
  String.ofList (name.toList.flatMap (fun c => if c = '"' then ['"', '"'] else [c]))

end TreeQuery.Identifier
