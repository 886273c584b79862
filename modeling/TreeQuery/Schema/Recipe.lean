import TreeQuery.Clause.Draft
import TreeQuery.Schema.Basic

/-!
Delegates written as data: steps that draft clauses and orders, and templates of SQL text. Their
context is a text that may be absent.
-/

namespace TreeQuery

abbrev TextContext := Option String

/-- Where a step takes a value from. -/
inductive Operand where
  | argument (name : String)
  | context
  | value (v : Value)

def Operand.eval (args : Arguments) (cx : TextContext) : Operand → Value
  | .argument name => args.value name
  | .context => match cx with
    | some s => .text s
    | none => .null
  | .value v => v

inductive ClauseStep where
  | compare (column : ColumnRef) (op : CompareOp) (operand : Operand)
  | columns (lhs : ColumnRef) (op : CompareOp) (rhs : ColumnRef)
  | within (column : ColumnRef) (operand : Operand)
  | raw (sql : String) (params : List (String × Operand))
  | exists (sql : String) (params : List (String × Operand))
  | group (steps : List ClauseStep)
  | or
  | not
  | ifArgument (name : String) (steps : List ClauseStep)

namespace ClauseStep

def params (args : Arguments) (cx : TextContext) (ps : List (String × Operand)) : Fields Value :=
  Fields.ofPairs (ps.map (fun p => (p.1, p.2.eval args cx)))

mutual

def run (args : Arguments) (cx : TextContext) : ClauseStep → ClauseDraft → ClauseDraft
  | .compare c op o, d => d.push (.compare c op (o.eval args cx))
  | .columns l op r, d => d.push (.compareColumns l op r)
  | .within c o, d =>
    let v := o.eval args cx
    d.push (.within c (v.list?.getD [v]))
  | .raw sql ps, d => d.push (.raw sql (params args cx ps))
  | .exists sql ps, d => d.push (.exists sql (params args cx ps))
  | .group steps, d => d.push (.group (runAll args cx steps .empty).clauses)
  | .or, d => d.or
  | .not, d => d.not
  | .ifArgument n steps, d => if args.contains n then runAll args cx steps d else d

def runAll (args : Arguments) (cx : TextContext) : List ClauseStep → ClauseDraft → ClauseDraft
  | [], d => d
  | s :: r, d => runAll args cx r (run args cx s d)

end

end ClauseStep

def clausesOf (steps : List ClauseStep) : Delegate TextContext (List Clause) :=
  fun args cx => (ClauseStep.runAll args cx steps .empty).clauses

inductive OrderStep where
  | by (column : String) (direction : Direction)
  | ifArgument (name : String) (steps : List OrderStep)

namespace OrderStep

mutual

def run (args : Arguments) : OrderStep → OrderBy → OrderBy
  | .by c d, order => order ++ [⟨c, d⟩]
  | .ifArgument n steps, order => if args.contains n then runAll args steps order else order

def runAll (args : Arguments) : List OrderStep → OrderBy → OrderBy
  | [], order => order
  | s :: r, order => runAll args r (run args s order)

end

end OrderStep

def orderOf (steps : List OrderStep) : Delegate TextContext OrderBy :=
  fun args _ => OrderStep.runAll args steps []

/-- A name and a type go to the column added last. -/
inductive SortStep where
  | by (column : String) (direction : Direction)
  | named (name : String)
  | typed (type : KeyType)
  | ifArgument (name : String) (steps : List SortStep)

namespace SortStep

def changeLast (f : SortColumn → SortColumn) : SortKey → SortKey
  | [] => []
  | [c] => [f c]
  | c :: r => c :: changeLast f r

mutual

def run (args : Arguments) : SortStep → SortKey → SortKey
  | .by c d, key => key ++ [⟨c, c, d, .any⟩]
  | .named n, key => changeLast (fun c => { c with name := n }) key
  | .typed t, key => changeLast (fun c => { c with type := t }) key
  | .ifArgument n steps, key => if args.contains n then runAll args steps key else key

def runAll (args : Arguments) : List SortStep → SortKey → SortKey
  | [], key => key
  | s :: r, key => runAll args r (run args s key)

end

end SortStep

def sortKeyOf (steps : List SortStep) : Delegate TextContext SortKey :=
  fun args _ => SortStep.runAll args steps []

/-- A part of a text that is computed from the request. -/
inductive TemplatePart where
  | text (s : String)
  | table
  | column
  | operand (o : Operand)

/-- Texts and integers are written out; other values leave nothing. -/
def TemplatePart.write (table column : String) (args : Arguments) (cx : TextContext) :
    TemplatePart → String
  | .text s => s
  | .table => table
  | .column => column
  | .operand o => match o.eval args cx with
    | .text s => s
    | .int i => Numeral.ofInt64 i
    | _ => ""

def templateText (parts : List TemplatePart) (table column : String) :
    Delegate TextContext String :=
  fun args cx => String.join (parts.map (TemplatePart.write table column args cx))

end TreeQuery
