import Mathlib.Data.List.Nodup

/-!
Lists up to repeats: what is left when only the first occurrence of each element counts. Filtering,
mapping and taking the head see no more of a list than that.
-/

namespace TreeQuery

section Distinct

variable {α β : Type} [DecidableEq α] [DecidableEq β]

/-- The elements in order of first appearance. -/
def distinct (l : List α) : List α := l.eraseDups

@[simp] theorem distinct_nil : distinct ([] : List α) = [] := rfl

theorem distinct_cons (a : α) (l : List α) :
    distinct (a :: l) = a :: distinct (l.filter (fun b => b ≠ a)) := by
  rw [distinct, List.eraseDups_cons, distinct]
  congr 2
  apply List.filter_congr
  intro b _
  by_cases h : b = a <;> simp [h]

@[simp] theorem mem_distinct {a : α} {l : List α} : a ∈ distinct l ↔ a ∈ l := List.mem_eraseDups

/-- The induction that dropping repeats takes: after an element, only the others are left. -/
theorem distinct_induction {P : List α → Prop} (nil : P [])
    (cons : ∀ a l, P (l.filter (fun b => b ≠ a)) → P (a :: l)) (l : List α) : P l := by
  generalize hn : l.length = n
  induction n using Nat.strongRecOn generalizing l with
  | ind n ih =>
    cases l with
    | nil => exact nil
    | cons a l =>
      refine cons a l (ih _ ?_ _ rfl)
      have := List.length_filter_le (fun b => decide (b ≠ a)) l
      simp only [List.length_cons] at hn
      omega

theorem nodup_distinct (l : List α) : (distinct l).Nodup := by
  induction l using distinct_induction with
  | nil => simp
  | cons a l ih =>
    rw [distinct_cons, List.nodup_cons]
    exact ⟨by simp, ih⟩

theorem distinct_of_nodup {l : List α} (h : l.Nodup) : distinct l = l := by
  induction l with
  | nil => rfl
  | cons a l ih =>
    obtain ⟨ha, hl⟩ := List.nodup_cons.mp h
    have unchanged : l.filter (fun b => b ≠ a) = l := by
      apply List.filter_eq_self.mpr
      intro b hb
      exact decide_eq_true (fun e => ha (e ▸ hb))
    rw [distinct_cons, unchanged, ih hl]

theorem distinct_filter (p : α → Bool) (l : List α) :
    distinct (l.filter p) = (distinct l).filter p := by
  induction l using distinct_induction with
  | nil => rfl
  | cons a l ih =>
    rw [distinct_cons]
    by_cases ha : p a
    · rw [List.filter_cons_of_pos ha, List.filter_cons_of_pos ha, distinct_cons, ← ih,
        List.filter_filter, List.filter_filter]
      simp only [Bool.and_comm]
    · -- Elements with `p` differ from `a`, so dropping `a` first changes nothing.
      have same : (l.filter (fun b => b ≠ a)).filter p = l.filter p := by
        rw [List.filter_filter]
        apply List.filter_congr
        intro b _
        by_cases hb : b = a <;> simp [hb, ha]
      rw [List.filter_cons_of_neg ha, List.filter_cons_of_neg ha, ← ih, same]

theorem distinct_map (f : α → β) (l : List α) :
    distinct (l.map f) = distinct ((distinct l).map f) := by
  induction l using distinct_induction with
  | nil => rfl
  | cons a l ih =>
    have same : (l.map f).filter (fun c => c ≠ f a) =
        ((l.filter (fun b => b ≠ a)).map f).filter (fun c => c ≠ f a) := by
      rw [List.filter_map, List.filter_map, List.filter_filter]
      congr 1
      apply List.filter_congr
      intro b _
      by_cases hb : b = a <;> simp [hb]
    rw [distinct_cons, List.map_cons, List.map_cons, distinct_cons, same, distinct_filter, ih,
      ← distinct_filter, distinct_cons]

/-- What follows is not new if it occurred before. -/
theorem distinct_append_of_subset {l m : List α} (h : m ⊆ l) :
    distinct (l ++ m) = distinct l := by
  have nothing : m.removeAll l = [] := by
    apply List.filter_eq_nil_iff.mpr
    intro a ha
    simpa using h ha
  rw [distinct, List.eraseDups_append, nothing, List.eraseDups_nil, List.append_nil, distinct]

theorem distinct_append (l m : List α) :
    distinct (l ++ m) = distinct l ++ distinct (m.filter (fun a => a ∉ l)) := by
  rw [distinct, List.eraseDups_append, distinct, distinct]
  congr 2
  apply List.filter_congr
  intro a _
  by_cases h : a ∈ l <;> simp [h]

theorem head?_distinct (l : List α) : (distinct l).head? = l.head? := by
  cases l with
  | nil => rfl
  | cons a l => simp [distinct_cons]

/-- What two functions tell apart of a list alike, each in the order of first appearance. -/
theorem map_distinct_congr {γ δ : Type} {f : γ → α} {g : γ → β} {f' : α → δ} {g' : β → δ}
    (l : List γ) (same : ∀ a ∈ l, ∀ b ∈ l, f a = f b ↔ g a = g b)
    (agree : ∀ a ∈ l, f' (f a) = g' (g a)) :
    (distinct (l.map f)).map f' = (distinct (l.map g)).map g' := by
  generalize hn : l.length = n
  induction n using Nat.strongRecOn generalizing l with
  | ind n ih =>
    cases l with
    | nil => rfl
    | cons a l =>
      obtain ⟨own, others⟩ := List.forall_mem_cons.mp agree
      have kept : l.filter (fun b => f b ≠ f a) = l.filter (fun b => g b ≠ g a) := by
        refine List.filter_congr (fun b member => decide_eq_decide.mpr (not_congr ?_))
        exact same b (List.mem_cons_of_mem _ member) a (List.mem_cons_self ..)
      have shorter : (l.filter (fun b => f b ≠ f a)).length < n := by
        have := List.length_filter_le (fun b => decide (f b ≠ f a)) l
        rw [List.length_cons] at hn
        omega
      have sub {b : γ} (member : b ∈ l.filter (fun b => f b ≠ f a)) : b ∈ a :: l :=
        List.mem_cons_of_mem _ (List.mem_of_mem_filter member)
      have rest := ih _ shorter (l.filter (fun b => f b ≠ f a))
        (fun b hb c hc => same b (sub hb) c (sub hc)) (fun b hb => agree b (sub hb)) rfl
      rw [List.map_cons, List.map_cons, distinct_cons, distinct_cons, List.map_cons,
        List.map_cons, own, List.filter_map, List.filter_map]
      congr 1
      refine rest.trans ?_
      rw [kept]
      rfl

end Distinct

/-- The lists have the same elements, in the same order of first appearance. -/
def SameFirsts {α : Type} (l m : List α) : Prop := ∀ _ : DecidableEq α, distinct l = distinct m

namespace SameFirsts

variable {α β : Type} {l m n : List α}

theorem refl (l : List α) : SameFirsts l l := fun _ => rfl

theorem trans (h : SameFirsts l m) (h' : SameFirsts m n) : SameFirsts l n :=
  fun d => (h d).trans (h' d)

theorem map (h : SameFirsts l m) (f : α → β) : SameFirsts (l.map f) (m.map f) := by
  classical
  intro _
  rw [distinct_map f l, distinct_map f m, h _]

theorem filter (h : SameFirsts l m) (p : α → Bool) : SameFirsts (l.filter p) (m.filter p) := by
  intro _
  rw [distinct_filter, distinct_filter, h _]

theorem head?_eq (h : SameFirsts l m) : l.head? = m.head? := by
  classical
  rw [← head?_distinct, h (Classical.decEq α), head?_distinct]

end SameFirsts

section Product

variable {α β γ : Type}

/-- Of a product, the earlier factor alone. -/
theorem sameFirsts_flatMap_left {l : List α} {m : α → List β} (hm : ∀ a ∈ l, m a ≠ []) (f : α → γ) :
    SameFirsts (l.flatMap (fun a => (m a).map (fun _ => f a))) (l.map f) := by
  intro _
  induction l with
  | nil => rfl
  | cons a l ih =>
    have later := ih (fun c hc => hm c (List.mem_cons_of_mem _ hc))
    obtain ⟨b, bs, hb⟩ := List.exists_cons_of_ne_nil (hm a (by simp))
    have once : distinct ((m a).map (fun _ => f a)) = [f a] := by
      simp [hb, distinct_cons]
    have others (k : List γ) :
        k.filter (fun c => c ∉ (m a).map (fun _ => f a)) = k.filter (fun c => c ≠ f a) := by
      apply List.filter_congr
      intro c _
      by_cases hc : c = f a <;> simp [hb, hc]
    rw [List.flatMap_cons, distinct_append, once, others, distinct_filter, later, List.map_cons,
      distinct_cons, distinct_filter, List.singleton_append]

/-- Of a product, the later factor alone. -/
theorem sameFirsts_flatMap_right {l : List α} (hl : l ≠ []) (m : List β) :
    SameFirsts (l.flatMap (fun _ => m)) m := by
  intro _
  obtain ⟨a, l, rfl⟩ := List.exists_cons_of_ne_nil hl
  refine distinct_append_of_subset ?_
  intro b hb
  obtain ⟨_, _, h⟩ := List.mem_flatMap.mp hb
  exact h

end Product

end TreeQuery
