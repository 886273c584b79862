import Mathlib.Data.List.Induction
import TreeQuery.Grouping
import TreeQuery.Proofs.Repeats

/-!
What grouping leaves of a list: the keys are the distinct keys in order of first appearance, and
below each key stand its values in order.
-/

namespace TreeQuery

namespace Grouping

variable {κ α : Type} [DecidableEq κ]

theorem ofPairs_concat (ps : List (κ × α)) (p : κ × α) :
    ofPairs (ps ++ [p]) = (ofPairs ps).add p.1 p.2 := by
  simp [ofPairs, List.foldl_append]

theorem keys_ofPairs (ps : List (κ × α)) : (ofPairs ps).keys = distinct (ps.map Prod.fst) := by
  induction ps using List.reverseRecOn with
  | nil => rfl
  | append_singleton ps p ih =>
    rw [ofPairs_concat, keys_add, ih, List.map_append, distinct_append]
    by_cases h : p.1 ∈ ps.map Prod.fst
    · simp [h]
    · simp [h, distinct_cons]

theorem valuesOf_ofPairs (ps : List (κ × α)) (k : κ) :
    (ofPairs ps).valuesOf k = (ps.filter (fun p => p.1 = k)).map Prod.snd := by
  induction ps using List.reverseRecOn with
  | nil => rfl
  | append_singleton ps p ih =>
    rw [ofPairs_concat, valuesOf_add, ih, List.filter_append, List.map_append]
    by_cases h : p.1 = k <;> simp [h]

/-- Different keys do not hide each other's values. -/
theorem eq_map_valuesOf {g : Grouping κ α} (h : g.keys.Nodup) :
    g = g.keys.map (fun k => (k, g.valuesOf k)) := by
  induction g with
  | nil => rfl
  | cons p r ih =>
    obtain ⟨l, vs⟩ := p
    obtain ⟨fresh, hr⟩ := List.nodup_cons.mp h
    simp only [keys, List.map_cons, valuesOf, if_true]
    congr 1
    refine (ih hr).trans ?_
    apply List.map_congr_left
    intro k hk
    have hl : l ≠ k := fun e => fresh (e ▸ hk)
    simp [hl]

theorem ofPairs_eq (ps : List (κ × α)) :
    ofPairs ps = (distinct (ps.map Prod.fst)).map
      (fun k => (k, (ps.filter (fun p => p.1 = k)).map Prod.snd)) := by
  have h : (ofPairs ps).keys.Nodup := by
    rw [keys_ofPairs]
    exact nodup_distinct _
  rw [eq_map_valuesOf h, keys_ofPairs]
  simp only [valuesOf_ofPairs]

theorem valuesOf_of_notMem {g : Grouping κ α} {k : κ} (absent : k ∉ g.keys) :
    g.valuesOf k = [] := by
  induction g with
  | nil => rfl
  | cons p g ih =>
    rw [keys, List.map_cons, List.mem_cons, not_or] at absent
    rw [valuesOf, if_neg (Ne.symm absent.1)]
    exact ih absent.2

theorem valuesOf_map {β : Type} (f : α → β) (g : Grouping κ α) (k : κ) :
    valuesOf (g.map (fun p => (p.1, p.2.map f))) k = (g.valuesOf k).map f := by
  induction g with
  | nil => rfl
  | cons p g ih =>
    rw [List.map_cons, valuesOf, valuesOf, ih]
    split <;> rfl

/-- The values that belong to a key are those put with it. -/
theorem filter_flatMap {g : Grouping κ α} {key : α → Option κ} (distinct : g.keys.Nodup)
    (own : ∀ p ∈ g, ∀ x ∈ p.2, key x = some p.1) (k : κ) :
    (g.flatMap Prod.snd).filter (fun x => key x = some k) = g.valuesOf k := by
  induction g with
  | nil => rfl
  | cons p g ih =>
    obtain ⟨l, xs⟩ := p
    obtain ⟨here, later⟩ := List.forall_mem_cons.mp own
    obtain ⟨fresh, others⟩ := List.nodup_cons.mp distinct
    rw [List.flatMap_cons, List.filter_append, ih others later, valuesOf]
    by_cases same : l = k
    · subst same
      rw [if_pos rfl, valuesOf_of_notMem fresh, List.append_nil]
      exact List.filter_eq_self.mpr fun x among => decide_eq_true (here x among)
    · rw [if_neg same, List.filter_eq_nil_iff.mpr, List.nil_append]
      intro x among
      simpa [here x among] using same

end Grouping

end TreeQuery
