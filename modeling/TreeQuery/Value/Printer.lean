import TreeQuery.Json.Printer
import TreeQuery.Value.Basic

/-!
A value as the JSON of a response, and as diagnostics show it.
-/

namespace TreeQuery

def ofOption (j : Option String) : Json :=
  match j with
  | some s => .string s
  | none => .null

def PageInfo.document (info : PageInfo) : Json :=
  .object [("hasNextPage", .bool info.hasNextPage), ("hasPreviousPage", .bool info.hasPreviousPage),
    ("startCursor", ofOption info.startCursor), ("endCursor", ofOption info.endCursor)]

def shownOption {α : Type} (f : α → String) : Option α → String
  | some a => "Some(" ++ f a ++ ")"
  | none => "None"

def shownBool (b : Bool) : String := if b then "true" else "false"

def PageInfo.shown (info : PageInfo) : String :=
  "PageInfo \x7b has_next_page: " ++ shownBool info.hasNextPage ++
    ", has_previous_page: " ++ shownBool info.hasPreviousPage ++
    ", start_cursor: " ++ shownOption Quoted.quote info.startCursor ++
    ", end_cursor: " ++ shownOption Quoted.quote info.endCursor ++ " \x7d"

namespace Value

mutual

/-- A number that is not finite becomes null, and a page has a total only if it is known. -/
def document : Value → Json
  | .null => .null
  | .bool b => .bool b
  | .int i => .number (.ofInt64 i)
  | .double x => if x.isFinite then .number (.double x) else .null
  | .text s => .string s
  | .json j => j
  | .list items => .array (documentItems items)
  | .object fields => .object (documentFields fields)
  | .connection edges info total =>
    .object ([("edges", .array (documentEdges edges)), ("pageInfo", info.document)] ++
      (match total with
        | some n => [("totalCount", .number (.ofInt64 n))]
        | none => []))

def documentItems : List Value → List Json
  | [] => []
  | v :: r => document v :: documentItems r

def documentFields : List (String × Value) → List (String × Json)
  | [] => []
  | (n, v) :: r => (n, document v) :: documentFields r

def documentEdges : List (String × Value) → List Json
  | [] => []
  | (c, v) :: r => .object [("cursor", .string c), ("node", document v)] :: documentEdges r

end

mutual

def shown : Value → String
  | .null => "Null"
  | .bool b => "Bool(" ++ shownBool b ++ ")"
  | .int i => "I64(" ++ Numeral.ofInt64 i ++ ")"
  | .double x => "F64(" ++ Double.diagnostic.write x ++ ")"
  | .text s => "String(" ++ Quoted.quote s ++ ")"
  | .json j => "Json(" ++ j.shown ++ ")"
  | .list items => "List([" ++ String.intercalate ", " (shownItems items) ++ "])"
  | .object fields =>
    "Object(\x7b" ++ String.intercalate ", " (shownFields fields) ++ "\x7d)"
  | .connection edges info total =>
    "Connection(Connection \x7b edges: [" ++ String.intercalate ", " (shownEdges edges) ++
      "], page_info: " ++ info.shown ++ ", total_count: " ++
      shownOption Numeral.ofInt64 total ++ " \x7d)"

def shownItems : List Value → List String
  | [] => []
  | v :: r => shown v :: shownItems r

def shownFields : List (String × Value) → List String
  | [] => []
  | (n, v) :: r => (Quoted.quote n ++ ": " ++ shown v) :: shownFields r

def shownEdges : List (String × Value) → List String
  | [] => []
  | (c, v) :: r =>
    ("Edge \x7b cursor: " ++ Quoted.quote c ++ ", node: " ++ shown v ++ " \x7d") :: shownEdges r

end

def responseText (v : Value) : String := v.document.text

end Value

end TreeQuery
