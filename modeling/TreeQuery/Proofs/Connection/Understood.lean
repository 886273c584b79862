import TreeQuery.Proofs.Connection.Keyset
import TreeQuery.Proofs.Cursor

/-!
The cursors that a page hands out are understood again: each is the position of the node on its
edge, as the types of the sort key convert it.
-/

namespace TreeQuery

open Plan (KeysetPage)

namespace Connection

/-- The value of a node in a column of a sort key. A missing field counts as null. -/
def keyValue (node : Value) (c : SortColumn) : Value := (node.field? c.name).getD .null

theorem keyFields_eq {key : SortKey} (distinct : key.names.Nodup) (node : Value) :
    keyFields key node = key.map (fun c => (c.name, keyValue node c)) := by
  have names : (key.map (fun c => (c.name, keyValue node c))).map Prod.fst = key.names := by
    rw [List.map_map]
    rfl
  exact Fields.ofPairs_of_nodup (names ▸ distinct)

theorem snd_edges (key : SortKey) (nodes : List Value) :
    (nodes.map (edge key)).map Prod.snd = nodes := by
  rw [List.map_map]
  exact List.map_id nodes

/-- Whichever way a page goes, the cursor of each of its edges is accepted for its sort key and
stands for the values of the edge's own node, in the order of the key, if single cells hold them
and the key's types convert them. -/
theorem edge_cursors_understood {p : KeysetPage} (distinct : p.key.names.Nodup)
    (items : List Value) : ∃ edges info, ofKeyset p items = .connection edges info none ∧
      edges.map Prod.snd = shown p items ∧
      ∀ e ∈ edges, (∀ c ∈ p.key, (keyValue e.2 c).isScalar = true) →
        (∀ c ∈ p.key, (c.type.convert? (keyValue e.2 c)).isSome = true) →
        ∃ values, Cursor.toKeyset e.1 p.key = .ok values ∧
          values.map some = p.key.map (fun c => c.type.convert? (keyValue e.2 c)) := by
  refine ⟨_, _, ofKeyset_eq p items, snd_edges p.key _, ?_⟩
  intro e member scalars convertible
  obtain ⟨node, _, rfl⟩ := List.mem_map.mp member
  let converted (c : SortColumn) : Value := (c.type.convert? (keyValue node c)).getD .null
  have converts : ∀ c ∈ p.key, c.type.convert? (keyValue node c) = some (converted c) := by
    intro c among
    obtain ⟨w, made⟩ := Option.isSome_iff_exists.mp (convertible c among)
    exact made.trans (congrArg (fun v => some (v.getD .null)) made.symm)
  refine ⟨p.key.map converted, ?_, ?_⟩
  · rw [edge, keyFields_eq distinct]
    exact Cursor.toKeyset_ofFields distinct scalars converts
  · rw [List.map_map]
    exact List.map_congr_left (fun c among => (converts c among).symm)

/-- Notes by what they say, under names of their own. Notes have no field for the last column. -/
def notesKey : SortKey :=
  [⟨"body", "t\"x", .ascending, .string⟩, ⟨"rank", "n", .descending, .int⟩,
    ⟨"done", "done", .ascending, .bool⟩, ⟨"low", "low", .descending, .any⟩,
    ⟨"weight", "weight", .ascending, .float⟩]

theorem distinct_notesKey : notesKey.names.Nodup := by decide

/-- The last note. -/
def notesPage : KeysetPage where
  key := notesKey
  table := "notes"
  count := some 1
  backward := true
  cursor := none

def oddNote : Value := .object [("low", .int Int64.minValue), ("done", .null), ("n", .text "-7"),
  ("t\"x", .text "é\\\"\x01\n")]

/-- A cursor with quotes, control characters, nulls and the least number is understood, and a
numeral under the type of integers comes back as the number. -/
theorem edge_cursors_understood_note : ∃ c,
    ofKeyset notesPage [oddNote] =
      .connection [(c, oddNote)] ⟨false, false, some c, some c⟩ none ∧
    Cursor.toKeyset c notesPage.key =
      .ok [.text "é\\\"\x01\n", .int (-7), .null, .int Int64.minValue, .null] := by
  obtain ⟨edges, info, made, _, understood⟩ :=
    edge_cursors_understood (p := notesPage) distinct_notesKey [oddNote]
  have own : ofKeyset notesPage [oddNote] = .connection [edge notesKey oddNote]
      ⟨false, false, some (edge notesKey oddNote).1, some (edge notesKey oddNote).1⟩ none := rfl
  cases made.symm.trans own
  have scalars : ∀ c ∈ notesKey, (keyValue oddNote c).isScalar = true := by decide
  have convertible : ∀ c ∈ notesKey, (c.type.convert? (keyValue oddNote c)).isSome = true := by
    decide
  obtain ⟨values, accepted, converted⟩ := understood _ (List.mem_singleton_self _) scalars convertible
  have same : values.map some = List.map some
      [.text "é\\\"\x01\n", .int (-7), .null, .int Int64.minValue, .null] := converted
  rw [List.map_injective_iff.mpr (fun _ _ => Option.some.inj) same] at accepted
  exact ⟨_, own, accepted⟩

end Connection

end TreeQuery
