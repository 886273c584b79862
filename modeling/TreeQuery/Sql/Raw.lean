import TreeQuery.Sql.Error

/-!
SQL written by the author of a schema. A role between braces stands for the label of its table,
and a parameter's name after `@` for its placeholder. One pass from left to right finds them, so
what is put in is not read again.
-/

namespace TreeQuery.Sql

/-- The labels that roles stand for. -/
structure Labels where
  this : Option String
  parent : Option String
  child : Option String

namespace Labels

def ofTable (label : String) : Labels := ⟨some label, none, none⟩

def ofJoin (parent child : String) : Labels := ⟨some child, some parent, some child⟩

def label? (a : Labels) : Role → Option String
  | .this => a.this
  | .parent => a.parent
  | .child => a.child

def resolve (a : Labels) (r : Role) : Except SqlError String :=
  match a.label? r with
  | some label => .ok label
  | none => .error (.outOfScope r)

end Labels

inductive Piece where
  | char (c : Char)
  | role (r : Role)
  | param (name : String)
  deriving DecidableEq

def isNameChar (c : Char) : Bool := c.isAlphanum || c = '_'

def closed (r : Role) : List Char := (roleName r).toList ++ ['\x7d']

/-- The role that stands right after an opening brace, and the length of its text. -/
def roleAt? (cs : List Char) : Option (Role × Nat) :=
  ([.this, .parent, .child].find? (fun r => (closed r).isPrefixOf cs)).map
    (fun r => (r, (closed r).length))

/-- The pieces of a raw text, after so many characters that belong to the piece before. -/
def piecesFrom (isParam : String → Bool) : Nat → List Char → List Piece
  | _, [] => []
  | skip + 1, _ :: cs => piecesFrom isParam skip cs
  | 0, c :: cs =>
    if c = '\x7b' then match roleAt? cs with
      | some (r, n) => .role r :: piecesFrom isParam n cs
      | none => .char c :: piecesFrom isParam 0 cs
    else if c = '@' then
      let name := cs.takeWhile isNameChar
      if !name.isEmpty && isParam (String.ofList name) then
        .param (String.ofList name) :: piecesFrom isParam name.length cs
      else .char c :: piecesFrom isParam 0 cs
    else .char c :: piecesFrom isParam 0 cs

def pieces (isParam : String → Bool) (sql : String) : List Piece :=
  piecesFrom isParam 0 sql.toList

def pieceToken (a : Labels) (params : Fields Value) : Piece → Binder Token
  | .char c => return .sql c.toString
  | .role r => return .label (← a.resolve r)
  | .param name => bindValue ((Fields.get? params name).getD .null)

def pieceTokens (a : Labels) (params : Fields Value) : List Piece → Binder Fragment
  | [] => return []
  | p :: r => do
    let t ← pieceToken a params p
    return t :: (← pieceTokens a params r)

def raw (a : Labels) (sql : String) (params : Fields Value) : Binder Fragment :=
  pieceTokens a params (pieces (Fields.contains params) sql)

end TreeQuery.Sql
