import TreeQuery.Schema.Basic

/-!
A schema is a set of object types that passed validation, so every type that a field refers to is
declared and every table has a unique key.
-/

namespace TreeQuery

inductive SchemaError where
  | duplicateType (name : String)
  | noQueryType (name : String)
  | noUniqueKey (typeName : String)
  | scalarRelation (typeName field : String)
  | unknownType (typeName field referred : String)
  | severalRelations (typeName field : String)
  | pagedSingle (typeName field : String)
  | missing

def SchemaError.message : SchemaError → String
  | .duplicateType n => "object type `" ++ n ++ "` is declared more than once"
  | .noQueryType n => "query type `" ++ n ++ "` is not declared"
  | .noUniqueKey t => "table for type `" ++ t ++ "` has no unique key"
  | .scalarRelation t f => "scalar field `" ++ t ++ "." ++ f ++ "` cannot declare a relation"
  | .unknownType t f r =>
    "field `" ++ t ++ "." ++ f ++ "` refers to unknown type `" ++ r ++ "`"
  | .severalRelations t f =>
    "field `" ++ t ++ "." ++ f ++ "` declares more than one of join, batch and junction"
  | .pagedSingle t f => "field `" ++ t ++ "." ++ f ++ "` is paginated but is not a list"
  | .missing => "an executor needs a schema; call `Builder::schema` first"

def SchemaError.toError (e : SchemaError) : Error := .invalidConfiguration e.message

variable {Ctx : Type}

/-- How many of join, batch and junction a field declares. -/
def Field.relationCount (f : Field Ctx) : Nat :=
  f.join.isSome.toNat + f.batch.isSome.toNat + f.junction.isSome.toNat

def Field.validate (typeName : String) (types : List String) (f : Field Ctx) :
    Except SchemaError Unit :=
  match f.type with
  | .scalar =>
    if f.paginate || f.batch.isSome || f.junction.isSome then
      .error (.scalarRelation typeName f.name)
    else .ok ()
  | .object referred list =>
    if !types.contains referred then .error (.unknownType typeName f.name referred)
    else if 1 < f.relationCount then .error (.severalRelations typeName f.name)
    else if f.paginate && !list then .error (.pagedSingle typeName f.name)
    else .ok ()

def ObjectType.validate (types : List String) (t : ObjectType Ctx) : Except SchemaError Unit := do
  if t.table.any (fun c => c.uniqueKey.isEmpty) then throw (.noUniqueKey t.name)
  t.fields.forM (fun f => f.2.validate t.name types)

def firstRepeated? : List String → List String → Option String
  | _, [] => none
  | seen, n :: r => if seen.contains n then some n else firstRepeated? (n :: seen) r

def checkNames (names : List String) : Except SchemaError Unit :=
  match firstRepeated? [] names with
  | some n => .error (.duplicateType n)
  | none => .ok ()

structure Schema (Ctx : Type) where
  types : List (ObjectType Ctx)
  queryType : ObjectType Ctx

namespace Schema

def type? (s : Schema Ctx) (name : String) : Option (ObjectType Ctx) :=
  s.types.find? (fun t => t.name = name)

def defaultQueryType : String := "Query"

def build (types : List (ObjectType Ctx)) (queryType : String) :
    Except SchemaError (Schema Ctx) := do
  let names := types.map ObjectType.name
  checkNames names
  match types.find? (fun t => t.name = queryType) with
  | none => throw (.noQueryType queryType)
  | some q =>
    types.forM (ObjectType.validate names)
    return ⟨types, q⟩

end Schema

end TreeQuery
