import TreeQuery.Plan.Basic

/-!
How the flat rows of a statement fold into objects. A field that is asked for under the name of
another column of the same table takes that column's place.
-/

namespace TreeQuery

mutual

inductive Shape where
  | mk (fields : List (String × ShapeField))

inductive ShapeField where
  /-- A column of the flat row; rows that agree on the identity columns are one object. -/
  | column (label : String) (isIdentity : Bool)
  /-- The objects of a joined table. -/
  | nested (shape : Shape) (many : Bool)

end

/-- A column stays one of identity. -/
def ShapeField.orIdentity (isIdentity : Bool) : ShapeField → ShapeField
  | .column a i => .column a (i || isIdentity)
  | .nested s many => .nested s many

namespace Shape

inductive ShapeError where
  | rootJoin (location : Location)
  | noIdentity (location : Location)

def ShapeError.message : ShapeError → String
  | .rootJoin l => "`" ++ l.text ++ "` is a root field and cannot declare a join"
  | .noIdentity l => "`" ++ l.text ++ "` selects no identity column"

def ShapeError.toError (e : ShapeError) : Error := .invalidConfiguration e.message

def fields : Shape → List (String × ShapeField)
  | .mk fs => fs

/-- Adds a column unless its field is there already, which then is identity if either is. -/
def addColumn (name label : String) (isIdentity : Bool) :
    List (String × ShapeField) → List (String × ShapeField)
  | [] => [(name, .column label isIdentity)]
  | (n, f) :: r =>
    if n = name then (n, f.orIdentity isIdentity) :: r
    else (n, f) :: addColumn name label isIdentity r

/-- The columns that are identity, by their labels. -/
def identityOf : List (String × ShapeField) → List String
  | [] => []
  | (_, .column a true) :: r => a :: identityOf r
  | _ :: r => identityOf r

def identity (s : Shape) : List String := identityOf s.fields

open Plan (Node)

mutual

/-- The shape of the objects of a table whose columns' labels start with `path`. -/
def ofNode (path : String) : Node → Except ShapeError Shape
  | .table t children => do
    let fields ← ofChildren path [] children
    if (identityOf fields).isEmpty then .error (.noIdentity t.location) else .ok (.mk fields)
  | n => throw (.noIdentity n.location)

/-- A batch boundary contributes the key that its children are matched by. -/
def ofChildren (path : String) (fields : List (String × ShapeField)) :
    List Node → Except ShapeError (List (String × ShapeField))
  | [] => return fields
  | .column c :: r =>
    ofChildren path (addColumn c.fieldName (path ++ c.label) c.isIdentity fields) r
  | .composite c :: r => ofChildren path (addColumn c.fieldName (path ++ c.label) true fields) r
  | .noop _ _ :: r => ofChildren path fields r
  | .table t children :: r =>
    match t.batchKeys? with
    | some keys =>
      let key := keys.parentKey
      ofChildren path (addColumn key.fieldName (path ++ key.label) false fields) r
    | none => do
      let nested ← ofNode (path ++ t.label ++ "__") (.table t children)
      ofChildren path (fields ++ [(t.fieldName, .nested nested t.many)]) r

end

def checkTable (n : Node) : Except ShapeError Unit := (ofNode "" n).map (fun _ => ())

mutual

/-- A node has a shape if it is a batch boundary, and so have the boundaries below it. -/
def checkBatch : Node → Except ShapeError Unit
  | .table t children => do
    (if t.isBatch then checkTable (.table t children) else .ok ())
    checkBatches children
  | _ => return

def checkBatches : List Node → Except ShapeError Unit
  | [] => return
  | c :: r => do
    checkBatch c
    checkBatches r

end

/-- Every statement of the plan has a shape. -/
def checkPlan : Node → Except ShapeError Unit
  | .table t children =>
    if t.join.isSome then .error (.rootJoin t.location)
    else do
      checkTable (.table t children)
      checkBatches children
  | _ => return

end Shape

end TreeQuery
