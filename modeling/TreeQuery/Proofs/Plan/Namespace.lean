import TreeQuery.Plan.Namespace
import TreeQuery.Proofs.Text.FreshName

/-!
Labels of tables and short labels are not handed out twice. Short ones are numbers in letters, and
the first free number is found within as many steps as there are labels.
-/

namespace TreeQuery.Plan.Namespace

theorem letter_inj {m n : Nat} (hm : m < 26) (hn : n < 26) (same : letter m = letter n) :
    m = n := by
  have table : ∀ i j : Fin 26, letter i = letter j → i = j := by decide
  exact congrArg Fin.val (table ⟨m, hm⟩ ⟨n, hn⟩ same)

theorem letters_small {n : Nat} (small : n < 26) : letters n = [letter n] := by
  rw [letters, if_pos small]

theorem letters_large {n : Nat} (large : ¬n < 26) :
    letters n = letters (n / 26) ++ [letter (n % 26)] := by
  rw [letters, if_neg large, letter, letter, Nat.mod_mod]

theorem letters_ne_nil (n : Nat) : letters n ≠ [] := by
  by_cases small : n < 26
  · simp [letters_small small]
  · simp [letters_large small]

theorem letters_injective : Function.Injective letters := by
  intro m
  induction m using Nat.strongRecOn with
  | ind m inductionHypothesis =>
    intro n same
    have apart {i j : Nat} (small : i < 26) (large : ¬j < 26) : letters i ≠ letters j := by
      rw [letters_small small, letters_large large, ← List.nil_append [letter i]]
      intro alike
      have front := (List.append_inj' alike rfl).1
      exact letters_ne_nil _ front.symm
    by_cases hm : m < 26
    · by_cases hn : n < 26
      · rw [letters_small hm, letters_small hn] at same
        exact letter_inj hm hn (List.cons.inj same).1
      · exact absurd same (apart hm hn)
    · by_cases hn : n < 26
      · exact absurd same.symm (apart hn hm)
      · rw [letters_large hm, letters_large hn] at same
        obtain ⟨front, last⟩ := List.append_inj' same rfl
        have quotients := inductionHypothesis (m / 26) (by omega) front
        have remainders := letter_inj (by omega) (by omega) (List.cons.inj last).1
        omega

theorem short_injective : Function.Injective short := by
  intro m n same
  exact letters_injective (String.ofList_injective same)

theorem letter_ne_underscore (n : Nat) : letter n ≠ '_' := by
  have table : ∀ i : Fin 26, letter i ≠ '_' := by decide
  have small : n % 26 < 26 := Nat.mod_lt n (by decide)
  rw [letter, ← Nat.mod_mod n 26]
  exact table ⟨n % 26, small⟩

theorem underscore_notMem_letters (n : Nat) : '_' ∉ letters n := by
  induction n using Nat.strongRecOn with
  | ind n inductionHypothesis =>
    by_cases small : n < 26
    · rw [letters_small small, List.mem_singleton]
      exact (letter_ne_underscore n).symm
    · rw [letters_large small, List.mem_append, List.mem_singleton, not_or]
      exact ⟨inductionHypothesis (n / 26) (by omega), (letter_ne_underscore _).symm⟩

theorem underscore_notMem_short (n : Nat) : '_' ∉ (short n).toList := by
  rw [short, String.toList_ofList]
  exact underscore_notMem_letters n

/-- The search goes past labels that are taken, and stops at a free one unless it runs out. -/
theorem searchShort_spec (used : List String) : ∀ fuel n, ∃ k ≤ fuel,
    searchShort used n fuel = n + k ∧ (∀ i < k, short (n + i) ∈ used) ∧
      (k < fuel → short (n + k) ∉ used) := by
  intro fuel
  induction fuel with
  | zero =>
    intro n
    exact ⟨0, Nat.le_refl 0, rfl, by simp, by simp⟩
  | succ fuel inductionHypothesis =>
    intro n
    rw [searchShort]
    split
    · rename_i taken
      obtain ⟨k, bound, found, passed, free⟩ := inductionHypothesis (n + 1)
      refine ⟨k + 1, by omega, by omega, ?_, ?_⟩
      · intro i hi
        cases i with
        | zero => simpa using taken
        | succ i =>
          have before := passed i (by omega)
          rwa [Nat.add_assoc, Nat.add_comm 1] at before
      · intro more
        have stop := free (by omega)
        rwa [Nat.add_assoc, Nat.add_comm 1] at stop
    · rename_i free
      exact ⟨0, by omega, rfl, by simp, fun _ => by simpa using free⟩

theorem short_searchShort (used : List String) (n : Nat) :
    short (searchShort used n used.length) ∉ used := by
  obtain ⟨k, -, found, passed, free⟩ := searchShort_spec used used.length n
  rw [found]
  intro taken
  have apart : Function.Injective (fun i => short (n + i)) :=
    fun i j same => Nat.add_left_cancel (short_injective same)
  have before : ∀ i < k + 1, short (n + i) ∈ used := by
    intro i hi
    rcases Nat.lt_succ_iff_lt_or_eq.mp hi with earlier | rfl
    · exact passed i earlier
    · exact taken
  exact free (FreshName.le_length_of_taken apart before) taken

/-- With short labels a column takes a new one, and otherwise its own name. -/
theorem takeColumn_spec {ns ns' : Namespace} {name label : String}
    (taken : ns.takeColumn name = (label, ns')) : ns'.minify = ns.minify ∧
      if ns.minify then label ∉ ns.used ∧ ns'.used = label :: ns.used else label = name := by
  unfold takeColumn at taken
  split at taken
  · rename_i short
    cases taken
    rw [if_pos short]
    exact ⟨rfl, short_searchShort ns.used ns.next, rfl⟩
  · rename_i long
    cases taken
    rw [if_neg long]
    exact ⟨rfl, rfl⟩

/-- A table takes a label that was free, and it is taken from then on. -/
theorem takeTable_spec {ns ns' : Namespace} {name label : String}
    (taken : ns.takeTable name = (label, ns')) :
    ns'.minify = ns.minify ∧ label ∉ ns.used ∧ ns'.used = label :: ns.used := by
  unfold takeTable at taken
  split at taken
  · cases taken
    exact ⟨rfl, short_searchShort ns.used ns.next, rfl⟩
  · cases taken
    exact ⟨rfl, FreshName.choose_free ns.used _, rfl⟩

end TreeQuery.Plan.Namespace
