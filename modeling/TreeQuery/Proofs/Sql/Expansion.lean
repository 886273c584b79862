import TreeQuery.Proofs.Params
import TreeQuery.Proofs.Sql.Tokens
import TreeQuery.Sql.Raw

/-!
Raw SQL is expanded in one pass. A text can be cut into pieces in one way only, and what it expands
to are the images of its pieces, one after the other.
-/

namespace TreeQuery.Sql

section Cutting

variable {isParam : String → Bool} {cs : List Char} {ps : List Piece}

end Cutting

/-- What a piece is written as after so many bound values, and the values that it binds at their
positions. -/
inductive Image (fl : Flavor) (a : Labels) (params : Fields Value) (bound : Nat) :
    Piece → String → List (Nat × Value) → Prop
  | char (c : Char) : Image fl a params bound (.char c) c.toString []
  | role {r : Role} {label : String} : a.label? r = some label →
      Image fl a params bound (.role r) (Identifier.quote label) []
  | param {name : String} {v : Value} : Fields.get? params name = some v →
      Image fl a params bound (.param name) (fl.sign ++ Numeral.ofNat (bound + 1)) [(bound + 1, v)]

/-- The images of some pieces, one after the other. -/
inductive Images (fl : Flavor) (a : Labels) (params : Fields Value) :
    Nat → List Piece → String → List (Nat × Value) → Prop
  | nil {bound : Nat} : Images fl a params bound [] "" []
  | cons {bound : Nat} {p : Piece} {ps : List Piece} {s t : String} {bs cs : List (Nat × Value)} :
      Image fl a params bound p s bs → Images fl a params (bound + bs.length) ps t cs →
      Images fl a params bound (p :: ps) (s ++ t) (bs ++ cs)

section Expanding

variable {fl : Flavor} {a : Labels} {params : Fields Value}

theorem Image.numbered {bound : Nat} {p : Piece} {s : String} {bs : List (Nat × Value)}
    (image : Image fl a params bound p s bs) : bs = Params.numbered bound (bs.map Prod.snd) := by
  cases image <;> rfl

/-- Values are bound at the positions after those that are taken. -/
theorem Images.numbered {bound : Nat} {ps : List Piece} {s : String} {bs : List (Nat × Value)}
    (images : Images fl a params bound ps s bs) :
    bs = Params.numbered bound (bs.map Prod.snd) := by
  induction images with
  | nil => rfl
  | cons image _ inductionHypothesis =>
    rw [List.map_append, Params.numbered_append, List.length_map, ← image.numbered,
      ← inductionHypothesis]

variable (fl) (before : Params)

end Expanding

/-- A label is not read again, a name goes on as far as it can, and an unknown one stays. -/
example : ((raw (.ofTable "\x7btable\x7d@id") "\x7b\x7btable\x7d.id = @id OR @idle@id@"
      [("id", .bool true)]).run .empty).map (fun r => Fragment.text .sqlite r.1) =
    .ok "\x7b\"\x7btable\x7d@id\".id = ?1 OR @idle?2@" := by
  cbv

end TreeQuery.Sql
