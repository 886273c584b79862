import Mathlib.Data.List.Induction
import Mathlib.Data.List.Nodup
import TreeQuery.Fields

/-!
Reading named entries: from entries that follow each other, and from a map that was built out of
pairs, where the last pair of a name counts.
-/

namespace TreeQuery.Fields

variable {α β : Type}

@[simp] theorem names_nil : names ([] : Fields α) = [] := rfl

@[simp] theorem names_cons (f : String × α) (fs : Fields α) : names (f :: fs) = f.1 :: names fs := rfl

@[simp] theorem names_append (fs gs : Fields α) : names (fs ++ gs) = names fs ++ names gs :=
  List.map_append

@[simp] theorem get?_nil (n : String) : get? ([] : Fields α) n = none := rfl

theorem get?_cons (m n : String) (v : α) (fs : Fields α) :
    get? ((m, v) :: fs) n = if m = n then some v else get? fs n := rfl

theorem isSome_get? {fs : Fields α} {n : String} : (get? fs n).isSome ↔ n ∈ names fs := by
  induction fs with
  | nil => simp
  | cons f fs ih =>
    obtain ⟨m, v⟩ := f
    by_cases h : m = n
    · simp [get?_cons, h]
    · simp [get?_cons, h, ih, Ne.symm h]

theorem mem_of_get? {fs : Fields α} {n : String} {v : α}
    (h : get? fs n = some v) : (n, v) ∈ fs := by
  induction fs with
  | nil => cases h
  | cons f fs ih =>
    obtain ⟨m, w⟩ := f
    rw [get?_cons] at h
    split at h
    · rename_i hm
      rw [hm, Option.some.inj h]
      exact List.mem_cons_self ..
    · exact List.mem_cons_of_mem _ (ih h)

theorem get?_append (fs gs : Fields α) (n : String) :
    get? (fs ++ gs) n = if n ∈ names fs then get? fs n else get? gs n := by
  induction fs with
  | nil => simp
  | cons f fs ih =>
    obtain ⟨m, v⟩ := f
    by_cases h : m = n
    · simp [get?_cons, h]
    · simp [get?_cons, h, Ne.symm h, ih]

theorem get?_map {γ : Type} (f : γ → String) (g : γ → α) (l : List γ) (n : String) :
    get? (l.map (fun c => (f c, g c))) n = (l.find? (fun c => f c = n)).map g := by
  induction l with
  | nil => rfl
  | cons c l ih =>
    rw [List.map_cons, get?_cons, ih, List.find?_cons]
    by_cases h : f c = n <;> simp [h]

theorem get?_erase (fs : Fields α) (n m : String) :
    get? (erase fs n) m = if n = m then none else get? fs m := by
  induction fs with
  | nil => simp [erase]
  | cons f fs inductionHypothesis =>
    obtain ⟨k, v⟩ := f
    rw [erase] at inductionHypothesis ⊢
    rw [List.filter_cons]
    by_cases same : k = n
    · subst same
      by_cases hm : k = m
      · simpa [get?_cons, hm] using inductionHypothesis
      · simpa [get?_cons, hm] using inductionHypothesis
    · by_cases hm : k = m
      · subst hm
        simp [get?_cons, same, Ne.symm same]
      · simpa [get?_cons, same, hm] using inductionHypothesis

theorem insert_of_not_mem {fs : Fields α} {n : String} (h : n ∉ names fs) (v : α) :
    insert fs n v = fs ++ [(n, v)] := by
  induction fs with
  | nil => rfl
  | cons f fs ih =>
    obtain ⟨m, w⟩ := f
    simp only [names_cons, List.mem_cons, not_or] at h
    rw [insert, if_neg (Ne.symm h.1), ih h.2, List.cons_append]

theorem ofPairs_concat (ps : List (String × α)) (p : String × α) :
    ofPairs (ps ++ [p]) = insert (ofPairs ps) p.1 p.2 := by
  simp [ofPairs, List.foldl_append]

/-- Pairs of different names are kept as they are. -/
theorem ofPairs_of_nodup {ps : List (String × α)} (h : (ps.map Prod.fst).Nodup) :
    ofPairs ps = ps := by
  induction ps using List.reverseRecOn with
  | nil => rfl
  | append_singleton ps p ih =>
    rw [List.map_append, List.nodup_append] at h
    have fresh : p.1 ∉ names ps := fun hm => h.2.2 p.1 hm p.1 (by simp) rfl
    rw [ofPairs_concat, ih h.1, insert_of_not_mem fresh]

theorem get?_ofPairs_concat (ps : List (String × α)) (p : String × α) (n : String) :
    get? (ofPairs (ps ++ [p])) n = if p.1 = n then some p.2 else get? (ofPairs ps) n := by
  rw [ofPairs_concat, get?_insert]

theorem mem_of_mem_insert {fs : Fields α} {n : String} {v : α} {f : String × α}
    (member : f ∈ insert fs n v) : f ∈ fs ∨ f = (n, v) := by
  induction fs with
  | nil => exact .inr (List.mem_singleton.mp member)
  | cons g fs inductionHypothesis =>
    obtain ⟨m, w⟩ := g
    rw [insert] at member
    split at member
    · rename_i same
      rcases List.mem_cons.mp member with rfl | later
      · exact .inr (by rw [same])
      · exact .inl (List.mem_cons_of_mem _ later)
    · rcases List.mem_cons.mp member with rfl | later
      · exact .inl (List.mem_cons_self ..)
      · exact (inductionHypothesis later).imp_left (List.mem_cons_of_mem _)

theorem mem_of_mem_ofPairs {ps : List (String × α)} {f : String × α} (member : f ∈ ofPairs ps) :
    f ∈ ps := by
  induction ps using List.reverseRecOn with
  | nil => cases member
  | append_singleton ps p inductionHypothesis =>
    rw [ofPairs_concat] at member
    rcases mem_of_mem_insert member with earlier | rfl
    · exact List.mem_append_left _ (inductionHypothesis earlier)
    · exact List.mem_append_right _ (List.mem_singleton_self _)

/-- The entry of a name that comes last. -/
def last? : Fields α → String → Option α
  | [], _ => none
  | (m, v) :: r, n => (last? r n).or (if m = n then some v else none)

theorem last?_append (fs gs : Fields α) (n : String) :
    last? (fs ++ gs) n = (last? gs n).or (last? fs n) := by
  induction fs with
  | nil => simp [last?]
  | cons f fs ih => simp [last?, ih, Option.or_assoc]

theorem last?_eq_none {fs : Fields α} {n : String} : last? fs n = none ↔ n ∉ names fs := by
  induction fs with
  | nil => simp [last?]
  | cons f fs ih =>
    obtain ⟨m, v⟩ := f
    rw [last?, Option.or_eq_none_iff, ih, names_cons, List.mem_cons, not_or, and_comm]
    by_cases h : m = n
    · simp [h]
    · simp [h, Ne.symm h]

theorem mem_of_last? {fs : Fields α} {n : String} {v : α} (h : last? fs n = some v) :
    (n, v) ∈ fs := by
  induction fs with
  | nil => cases h
  | cons f fs ih =>
    obtain ⟨m, w⟩ := f
    rw [last?, Option.or_eq_some_iff] at h
    rcases h with later | ⟨_, here⟩
    · exact List.mem_cons_of_mem _ (ih later)
    · split at here
      · rename_i hm
        rw [hm, Option.some.inj here]
        exact List.mem_cons_self ..
      · cases here

theorem get?_ofPairs (ps : List (String × α)) (n : String) : get? (ofPairs ps) n = last? ps n := by
  induction ps using List.reverseRecOn with
  | nil => rfl
  | append_singleton ps p ih =>
    rw [get?_ofPairs_concat, ih, last?_append]
    by_cases h : p.1 = n <;> simp [last?, h]

theorem mem_names_ofPairs {ps : List (String × α)} {n : String} :
    n ∈ names (ofPairs ps) ↔ n ∈ names ps := by
  rw [← isSome_get?, get?_ofPairs, Option.isSome_iff_ne_none, ne_eq, last?_eq_none, not_not]

theorem last?_map (g : α → β) (fs : Fields α) (n : String) :
    last? (fs.map (fun f => (f.1, g f.2))) n = (last? fs n).map g := by
  induction fs with
  | nil => rfl
  | cons f fs ih =>
    obtain ⟨m, v⟩ := f
    simp only [List.map_cons, last?, ih, Option.map_or]
    split <;> rfl

end TreeQuery.Fields
