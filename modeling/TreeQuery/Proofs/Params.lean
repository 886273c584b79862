import TreeQuery.Params
import TreeQuery.Proofs.Fields
import TreeQuery.Proofs.Text.FreshName

/-!
Every parameter is added at the end, under a free name. Parameters that were only ever pushed are
named `p1`, `p2`, … in the order of their positions, and a position keeps its value while more are
pushed.
-/

namespace TreeQuery

namespace Params

/-- A value is bound at the next position, since its name is not taken. -/
theorem pushNamed_eq (ps : Params) (name : String) (v : Value) :
    ps.pushNamed name v = (ps.size + 1, ⟨ps.entries ++ [(ps.freshName name, v)]⟩) := by
  have free : ps.freshName name ∉ Fields.names ps.entries := FreshName.choose_free _ _
  rw [pushNamed, Fields.insert_of_not_mem free]
  simp [size]

/-- The name of the parameter at a position, when all were pushed without a name. -/
def positional (position : Nat) : String := "p" ++ Numeral.ofNat position

theorem positional_injective : Function.Injective positional := by
  intro m n same
  have lists := congrArg String.toList same
  simp only [positional, String.toList_append] at lists
  exact Numeral.ofNat_injective (String.toList_inj.mp (List.append_cancel_left lists))

/-- Some values numbered from the position after `start`. -/
def numbered : (start : Nat) → List Value → List (Nat × Value)
  | _, [] => []
  | start, v :: vs => (start + 1, v) :: numbered (start + 1) vs

/-- What pushing some values one after the other leaves. -/
def ofValues (vs : List Value) : Params :=
  ⟨(numbered 0 vs).map (fun b => (positional b.1, b.2))⟩

@[simp] theorem ofValues_nil : ofValues [] = .empty := rfl

theorem numbered_append (start : Nat) (vs ws : List Value) :
    numbered start (vs ++ ws) = numbered start vs ++ numbered (start + vs.length) ws := by
  induction vs generalizing start with
  | nil => rfl
  | cons v vs inductionHypothesis =>
    simp only [List.cons_append, numbered, inductionHypothesis, List.length_cons]
    rw [Nat.add_assoc, Nat.add_comm 1]

theorem mem_numbered {start : Nat} {vs : List Value} {position : Nat} {v : Value} :
    (position, v) ∈ numbered start vs ↔ ∃ i, vs[i]? = some v ∧ position = start + i + 1 := by
  induction vs generalizing start with
  | nil => simp [numbered]
  | cons w vs inductionHypothesis =>
    rw [numbered, List.mem_cons, inductionHypothesis, Prod.mk.injEq]
    constructor
    · rintro (⟨rfl, rfl⟩ | ⟨i, found, rfl⟩)
      · exact ⟨0, rfl, rfl⟩
      · exact ⟨i + 1, found, by omega⟩
    · rintro ⟨i, found, rfl⟩
      cases i with
      | zero => exact .inl ⟨rfl, (Option.some.inj found).symm⟩
      | succ i => exact .inr ⟨i, found, by omega⟩

@[simp] theorem length_numbered (start : Nat) (vs : List Value) :
    (numbered start vs).length = vs.length := by
  induction vs generalizing start with
  | nil => rfl
  | cons v vs inductionHypothesis => simp only [numbered, List.length_cons, inductionHypothesis]

theorem map_snd_numbered (start : Nat) (vs : List Value) :
    (numbered start vs).map Prod.snd = vs := by
  induction vs generalizing start with
  | nil => rfl
  | cons v vs inductionHypothesis => simp only [numbered, List.map_cons, inductionHypothesis]

@[simp] theorem size_ofValues (vs : List Value) : (ofValues vs).size = vs.length := by
  simp [size, ofValues]

theorem names_ofValues (vs : List Value) :
    Fields.names (ofValues vs).entries = (List.range' 1 vs.length).map positional := by
  have positions (start : Nat) :
      (numbered start vs).map Prod.fst = List.range' (start + 1) vs.length := by
    induction vs generalizing start with
    | nil => rfl
    | cons v vs inductionHypothesis =>
      simp only [numbered, List.map_cons, inductionHypothesis, List.length_cons, List.range'_succ]
  rw [← positions 0]
  simp [Fields.names, ofValues]

theorem at?_ofValues {vs : List Value} {position : Nat} {v : Value} :
    (ofValues vs).at? position = some v ↔ (position, v) ∈ numbered 0 vs := by
  rw [mem_numbered]
  cases position with
  | zero => simp [at?]
  | succ i =>
    have entry : (ofValues vs).at? (i + 1) = vs[i]? := by
      rw [at?, ← List.getElem?_map, ofValues, List.map_map]
      exact congrArg (fun l => l[i]?) (map_snd_numbered 0 vs)
    rw [entry]
    constructor
    · intro found
      exact ⟨i, found, by omega⟩
    · rintro ⟨j, found, same⟩
      obtain rfl : i = j := by omega
      exact found

/-- A value is pushed at the next position. -/
theorem push_ofValues (vs : List Value) (v : Value) :
    (ofValues vs).push v = (vs.length + 1, ofValues (vs ++ [v])) := by
  have fresh : positional (vs.length + 1) ∉ Fields.names (ofValues vs).entries := by
    rw [names_ofValues]
    intro taken
    obtain ⟨i, hi, same⟩ := List.mem_map.mp taken
    have position := positional_injective same
    have last := (List.mem_range'_1.mp hi).2
    omega
  have name : (ofValues vs).freshName (positional (vs.length + 1)) =
      positional (vs.length + 1) := by
    rw [freshName, FreshName.choose, if_neg (by simpa using fresh)]
  rw [push, size_ofValues, ← positional, pushNamed_eq, name, size_ofValues]
  simp [ofValues, numbered_append, numbered]

end Params

end TreeQuery
