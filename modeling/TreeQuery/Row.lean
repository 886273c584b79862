import TreeQuery.Error
import TreeQuery.Value.Basic

/-!
Rows of a result, and the streams that deliver them. A column that occurs twice is read at its
first place.
-/

namespace TreeQuery

structure Row where
  cells : List (String × Value)

namespace Row

/-- Refuses a row that is not as wide as its columns. -/
def ofColumns? (columns : List String) (values : List Value) : Option Row :=
  if columns.length = values.length then some ⟨columns.zip values⟩ else none

def columns (r : Row) : List String := r.cells.map Prod.fst

def size (r : Row) : Nat := r.cells.length

def get? (r : Row) (column : String) : Option Value := Fields.get? r.cells column

def isNull (r : Row) (column : String) : Bool := ((r.get? column).map Value.isNull).getD true

end Row

/-- Rows at hand, then the items of a source that may fail. -/
structure RowStream where
  buffered : List Row
  source : Option (List (Except Error Row))

namespace RowStream

def empty : RowStream := ⟨[], none⟩

def ofRows (rows : List Row) : RowStream := ⟨rows, none⟩

def ofItems (items : List (Except Error Row)) : RowStream := ⟨[], some items⟩

def items (s : RowStream) : List (Except Error Row) :=
  s.buffered.map .ok ++ s.source.getD []

/-- How many items are known to be left. -/
def minLength (s : RowStream) : Nat := s.items.length

def next? (s : RowStream) : Option (Except Error Row × RowStream) :=
  match s.buffered with
  | r :: rows => some (.ok r, { s with buffered := rows })
  | [] => match s.source with
    | some (item :: rest) => some (item, { s with source := some rest })
    | _ => none

/-- All rows, or the first error among the items. -/
def collect (s : RowStream) : Except Error (List Row) := s.items.mapM id

def shown (s : RowStream) : String :=
  "RowStream \x7b buffered: " ++ Numeral.ofNat s.buffered.length ++ ", streaming: " ++
    (if s.source.isSome then "true" else "false") ++ " \x7d"

end RowStream

end TreeQuery
