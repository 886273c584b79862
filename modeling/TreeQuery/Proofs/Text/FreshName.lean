import Mathlib.Data.List.Nodup
import Mathlib.Data.List.Perm.Subperm
import TreeQuery.Proofs.Text.Numeral
import TreeQuery.Text.FreshName

/-!
The name that is chosen is the first free one among the name asked for and its numbered forms. It is
found before there are as many names passed as are taken.
-/

namespace TreeQuery.FreshName

/-- Where different names are all taken, there are no more of them than there are taken names. -/
theorem le_length_of_taken {f : Nat → String} (apart : Function.Injective f) {taken : List String}
    {k : Nat} (passed : ∀ i < k, f i ∈ taken) : k ≤ taken.length := by
  have names : ((List.range k).map f).Nodup := List.Nodup.map apart List.nodup_range
  have within : (List.range k).map f ⊆ taken := by
    intro a ha
    obtain ⟨i, hi, rfl⟩ := List.mem_map.mp ha
    exact passed i (List.mem_range.mp hi)
  have count := (List.Nodup.subperm names within).length_le
  rwa [List.length_map, List.length_range] at count

/-- The names that are tried, in the order in which they are. -/
def candidate (name : String) : Nat → String
  | 0 => name
  | k + 1 => suffixed name (k + 1)

/-- A name is chosen if it is the first candidate that is free. -/
structure FirstFree (taken : List String) (name chosen : String) : Prop where
  free : chosen ∉ taken
  first : ∃ k ≤ taken.length, chosen = candidate name k ∧ ∀ i < k, candidate name i ∈ taken

theorem suffixed_ne (name : String) (k : Nat) : suffixed name k ≠ name := by
  intro same
  have lists := congrArg String.toList same
  simp [suffixed] at lists

theorem suffixed_injective (name : String) : Function.Injective (suffixed name) := by
  intro m n same
  have lists := congrArg String.toList same
  simp only [suffixed, String.toList_append, List.append_cancel_left_eq] at lists
  exact Numeral.ofNat_injective (String.toList_inj.mp lists)

theorem candidate_injective (name : String) : Function.Injective (candidate name)
  | 0, 0, _ => rfl
  | 0, n + 1, same => absurd same.symm (suffixed_ne name (n + 1))
  | m + 1, 0, same => absurd same (suffixed_ne name (m + 1))
  | _ + 1, _ + 1, same => suffixed_injective name same

/-- The search goes past names that are taken, and stops at a free one unless it runs out. -/
theorem search_spec (taken : List String) (name : String) : ∀ fuel n, ∃ k ≤ fuel,
    search taken name n fuel = suffixed name (n + k) ∧
      (∀ i < k, suffixed name (n + i) ∈ taken) ∧ (k < fuel → suffixed name (n + k) ∉ taken) := by
  intro fuel
  induction fuel with
  | zero =>
    intro n
    exact ⟨0, Nat.le_refl 0, rfl, by simp, by simp⟩
  | succ fuel inductionHypothesis =>
    intro n
    rw [search]
    split
    · rename_i used
      obtain ⟨k, bound, found, passed, free⟩ := inductionHypothesis (n + 1)
      have shift (i : Nat) : n + 1 + i = n + (i + 1) := by omega
      simp only [shift] at found passed free
      refine ⟨k + 1, Nat.succ_le_succ bound, found, ?_, fun more => free (by omega)⟩
      intro i hi
      cases i with
      | zero => simpa using used
      | succ i => exact passed i (Nat.lt_of_succ_lt_succ hi)
    · rename_i free
      exact ⟨0, Nat.zero_le _, rfl, by simp, fun _ => by simpa using free⟩

theorem choose_firstFree (taken : List String) (name : String) :
    FirstFree taken name (choose taken name) := by
  unfold choose
  split
  · rename_i used
    obtain ⟨k, -, found, passed, free⟩ := search_spec taken name taken.length 1
    rw [Nat.add_comm] at found free
    have before : ∀ i < k + 1, candidate name i ∈ taken := by
      intro i hi
      cases i with
      | zero => simpa [candidate] using used
      | succ i =>
        have later := passed i (Nat.lt_of_succ_lt_succ hi)
        rwa [Nat.add_comm] at later
    have bound : k + 1 ≤ taken.length := le_length_of_taken (candidate_injective name) before
    rw [found]
    exact ⟨free bound, k + 1, bound, rfl, before⟩
  · rename_i unused
    exact ⟨by simpa using unused, 0, Nat.zero_le _, rfl, by simp⟩

theorem choose_free (taken : List String) (name : String) : choose taken name ∉ taken :=
  (choose_firstFree taken name).free

end TreeQuery.FreshName
