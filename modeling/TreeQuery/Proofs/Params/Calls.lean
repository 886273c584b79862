import TreeQuery.Proofs.Params

/-!
Parameters that are bound with names and without, in any order. Every call adds one entry at the end,
under the first free name, so what was bound before keeps its position, its name and its value.
-/

namespace TreeQuery.Params

/-- A value is bound under a name that the caller gives, or under one made from its position. -/
inductive Call where
  | push (v : Value)
  | pushNamed (name : String) (v : Value)

namespace Call

def value : Call → Value
  | .push v => v
  | .pushNamed _ v => v

/-- The name that is asked for where so many parameters are bound. -/
def name (size : Nat) : Call → String
  | .push _ => positional (size + 1)
  | .pushNamed n _ => n

def run (ps : Params) : Call → Nat × Params
  | .push v => ps.push v
  | .pushNamed n v => ps.pushNamed n v

end Call

/-- What calls that were made one after the other leave. -/
def ofCalls (calls : List Call) : Params := calls.foldl (fun ps c => (c.run ps).2) .empty

/-- Every position and every name that has a value has the same value in the other parameters. -/
structure Kept (ps qs : Params) : Prop where
  positions : ∀ position v, ps.at? position = some v → qs.at? position = some v
  names : ∀ name v, ps.get? name = some v → qs.get? name = some v

section Step

variable (ps : Params)

/-- A call returns the next position, and adds its value there under the first free name. -/
theorem Call.run_spec (c : Call) : ∃ name,
    FreshName.FirstFree (Fields.names ps.entries) (c.name ps.size) name ∧
      c.run ps = (ps.size + 1, ⟨ps.entries ++ [(name, c.value)]⟩) := by
  refine ⟨_, FreshName.choose_firstFree _ _, ?_⟩
  cases c with
  | push v => exact pushNamed_eq ps _ v
  | pushNamed n v => exact pushNamed_eq ps n v

theorem Kept.of_extended {ps qs : Params} (extended : ps.entries <+: qs.entries) : ps.Kept qs := by
  obtain ⟨more, same⟩ := extended
  constructor
  · intro position v bound
    cases position with
    | zero => cases bound
    | succ i =>
      obtain ⟨entry, found, rfl⟩ := Option.map_eq_some_iff.mp bound
      have within : i < ps.entries.length := (List.getElem?_eq_some_iff.mp found).1
      rw [at?, ← same, List.getElem?_append_left within, found]
      rfl
  · intro name v bound
    have taken : name ∈ Fields.names ps.entries := by
      rw [← Fields.isSome_get?]
      exact Option.isSome_of_eq_some bound
    rw [get?, ← same, Fields.get?_append, if_pos taken]
    exact bound

/-- The new entry is found at its position and under its name. -/
theorem last_bound {name : String} (free : name ∉ Fields.names ps.entries) (v : Value) :
    (⟨ps.entries ++ [(name, v)]⟩ : Params).at? (ps.size + 1) = some v ∧
      (⟨ps.entries ++ [(name, v)]⟩ : Params).get? name = some v := by
  constructor
  · simp [at?, size]
  · rw [get?, Fields.get?_append, if_neg free]
    simp [Fields.get?]

end Step

section Run

variable (before later : List Call) (c : Call)

theorem ofCalls_concat : ofCalls (before ++ [c]) = (c.run (ofCalls before)).2 := by
  rw [ofCalls, List.foldl_append]
  rfl

theorem ofCalls_extends : (ofCalls before).entries <+: (ofCalls (before ++ later)).entries := by
  induction later using List.reverseRecOn with
  | nil => simp
  | append_singleton later c inductionHypothesis =>
    obtain ⟨name, -, ran⟩ := c.run_spec (ofCalls (before ++ later))
    rw [← List.append_assoc, ofCalls_concat, ran]
    exact inductionHypothesis.trans (List.prefix_append _ _)

theorem nodup_names_ofCalls : (Fields.names (ofCalls before).entries).Nodup := by
  induction before using List.reverseRecOn with
  | nil => exact List.nodup_nil
  | append_singleton before c inductionHypothesis =>
    obtain ⟨name, chosen, ran⟩ := c.run_spec (ofCalls before)
    rw [ofCalls_concat, ran, Fields.names_append, Fields.names_cons, Fields.names_nil,
      ← List.concat_eq_append]
    exact inductionHypothesis.concat chosen.free

end Run

/-- Calls of both kinds, starting from no parameters: each returns the new number of parameters and
adds one entry, under the first free name. From then on the value stands at the returned position
and under that name, what was bound before is unchanged, and all names are different. -/
theorem calls_keep_positions (before : List Call) (c : Call) (later : List Call) :
    c.run (ofCalls before) = ((ofCalls (before ++ [c])).size, ofCalls (before ++ [c])) ∧
    (∃ name, FreshName.FirstFree (Fields.names (ofCalls before).entries)
        (c.name (ofCalls before).size) name ∧
      (ofCalls (before ++ [c])).entries = (ofCalls before).entries ++ [(name, c.value)] ∧
      (ofCalls (before ++ c :: later)).get? name = some c.value) ∧
    (ofCalls (before ++ c :: later)).at? (c.run (ofCalls before)).1 = some c.value ∧
    (ofCalls before).Kept (ofCalls (before ++ c :: later)) ∧
    (Fields.names (ofCalls (before ++ c :: later)).entries).Nodup := by
  obtain ⟨name, chosen, ran⟩ := c.run_spec (ofCalls before)
  have bound : ofCalls (before ++ [c]) = ⟨(ofCalls before).entries ++ [(name, c.value)]⟩ := by
    rw [ofCalls_concat, ran]
  have still : (ofCalls (before ++ [c])).Kept (ofCalls (before ++ c :: later)) := by
    have extended := ofCalls_extends (before ++ [c]) later
    rw [List.append_assoc, List.singleton_append] at extended
    exact .of_extended extended
  have last := last_bound (ofCalls before) chosen.free c.value
  rw [← bound] at last
  refine ⟨?_, ⟨name, chosen, by rw [bound], still.names name _ last.2⟩, ?_,
    .of_extended (ofCalls_extends before _), nodup_names_ofCalls _⟩
  · rw [ran, bound]
    simp [size]
  · rw [ran]
    exact still.positions _ _ last.1

/-- A name that was made from a position may be asked for, and a numbered one as well. -/
example : Fields.names (ofCalls [.pushNamed "p2" .null, .push .null, .pushNamed "p2_1" .null,
    .pushNamed "p2" .null, .push .null]).entries = ["p2", "p2_1", "p2_1_1", "p2_2", "p5"] := by
  rfl

end TreeQuery.Params
