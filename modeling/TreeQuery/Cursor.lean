import TreeQuery.Json.Parser
import TreeQuery.Order
import TreeQuery.Text.Base64
import TreeQuery.Value.Printer

/-!
Cursors mark a position in a page as one opaque token, Base64 over a text. The text of an offset
cursor is a number after a fixed tag; that of a keyset cursor is a JSON object that holds the
values of the sort key by name.
-/

namespace TreeQuery

inductive CursorError where
  | notBase64 (cursor : String)
  | notUtf8 (cursor : String)
  | notAnOffset (cursor : String)
  | outOfRange (cursor : String)
  | notAKeyset (cursor : String)
  | extraColumn (name : String)
  | missingColumn (name : String)
  | wrongType (name : String) (expected : KeyType) (kind : String)

def CursorError.message : CursorError → String
  | .notBase64 c => "`" ++ c ++ "` is not valid base64"
  | .notUtf8 c => "`" ++ c ++ "` is not valid UTF-8"
  | .notAnOffset c => "`" ++ c ++ "` is not an offset cursor"
  | .outOfRange c => "`" ++ c ++ "` is out of range"
  | .notAKeyset c => "`" ++ c ++ "` is not a keyset cursor"
  | .extraColumn n => "column `" ++ n ++ "` is not in the sort key"
  | .missingColumn n => "column `" ++ n ++ "` is not in the cursor"
  | .wrongType n t kind =>
    "value for `" ++ n ++ "` is not a valid " ++ t.name ++ "; got " ++ kind

def CursorError.toError (e : CursorError) : Error := .invalidCursor e.message

namespace Cursor

def offsetTag : String := "arrayconnection:"

def decodeText (cursor : String) : Except CursorError String :=
  match Base64.decode? cursor.toList with
  | none => .error (.notBase64 cursor)
  | some bytes => match String.fromUTF8? ⟨bytes.toArray⟩ with
    | none => .error (.notUtf8 cursor)
    | some text => .ok text

def ofOffset (offset : Nat) : String := Base64.encodeText (offsetTag ++ Numeral.ofNat offset)

def afterTag? (text : String) : Option String :=
  if offsetTag.toList.isPrefixOf text.toList then
    some (String.ofList (text.toList.drop offsetTag.length))
  else none

/-- Offsets beyond 63 bits cannot be bound, so they are refused. -/
def toOffset (cursor : String) : Except CursorError Nat := do
  let text ← decodeText cursor
  match (afterTag? text).bind Numeral.uint64? with
  | none => .error (.notAnOffset cursor)
  | some n => if Numeral.fitsInt64 n.toNat then .ok n.toNat else .error (.outOfRange cursor)

/-- The fields keep their order. -/
def ofFields (fields : Fields Value) : String :=
  Base64.encodeText (Value.object fields).responseText

def toFields (cursor : String) : Except CursorError (Fields Value) := do
  let text ← decodeText cursor
  match Json.parseMembers? text with
  | none => .error (.notAKeyset cursor)
  | some members => .ok (Fields.ofPairs (members.map (fun m => (m.1, Value.ofJson m.2))))

/-- The cursor names exactly the columns of the sort key. What it names beyond them is reported
first. -/
def validate (fields : Fields Value) (key : SortKey) : Except CursorError Unit :=
  match (Fields.names fields).find? (fun n => !key.names.contains n) with
  | some n => .error (.extraColumn n)
  | none => match key.names.find? (fun n => !Fields.contains fields n) with
    | some n => .error (.missingColumn n)
    | none => .ok ()

/-- The converted values in the order of the sort key. A name that the key repeats has its value
taken the first time, and is null after that. -/
def takeColumns (fields : Fields Value) : SortKey → Except CursorError (List Value)
  | [] => .ok []
  | c :: key => do
    let v := (Fields.get? fields c.name).getD .null
    match c.type.convert? v with
    | none => .error (.wrongType c.name c.type v.normalize.kindName)
    | some w => do
      let ws ← takeColumns (Fields.erase fields c.name) key
      .ok (w :: ws)

def toKeyset (cursor : String) (key : SortKey) : Except CursorError (List Value) := do
  let fields ← toFields cursor
  validate fields key
  takeColumns fields key

end Cursor

end TreeQuery
