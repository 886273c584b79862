import Mathlib.Data.List.Basic

/-!
When a computation succeeds: one that may fail, and one that also carries a state. The lemmas peel
a computation apart into the steps that succeeded.
-/

namespace TreeQuery

section Except

variable {ε α β : Type}

theorem bind_eq_ok {x : Except ε α} {f : α → Except ε β} {b : β} :
    (x >>= f) = .ok b ↔ ∃ a, x = .ok a ∧ f a = .ok b := by
  cases x <;> simp [bind, Except.bind]

theorem map_eq_ok {x : Except ε α} {f : α → β} {b : β} :
    x.map f = .ok b ↔ ∃ a, x = .ok a ∧ f a = b := by
  cases x <;> simp [Except.map]

theorem mapError_eq_ok {ε' : Type} {x : Except ε α} {f : ε → ε'} {a : α} :
    x.mapError f = .ok a ↔ x = .ok a := by
  cases x <;> simp [Except.mapError]

theorem mapM_eq_ok_cons {f : α → Except ε β} {a : α} {l : List α} {bs : List β} :
    (a :: l).mapM f = .ok bs ↔ ∃ b r, f a = .ok b ∧ l.mapM f = .ok r ∧ bs = b :: r := by
  simp only [List.mapM_cons, bind_eq_ok, pure, Except.pure, Except.ok.injEq]
  constructor
  · rintro ⟨b, hb, r, hr, rfl⟩
    exact ⟨b, r, hb, hr, rfl⟩
  · rintro ⟨b, r, hb, hr, rfl⟩
    exact ⟨b, hb, r, hr, rfl⟩

/-- If every item has a result, so has the list. -/
theorem mapM_eq_ok_map {f : α → Except ε β} {g : α → β} {l : List α}
    (h : ∀ a ∈ l, f a = .ok (g a)) : l.mapM f = .ok (l.map g) := by
  induction l with
  | nil => rfl
  | cons a l ih =>
    exact mapM_eq_ok_cons.mpr ⟨g a, l.map g, h a (by simp),
      ih (fun b hb => h b (List.mem_cons_of_mem _ hb)), rfl⟩

theorem mem_of_mapM_ok {f : α → Except ε β} {l : List α} {bs : List β} (h : l.mapM f = .ok bs)
    {b : β} : b ∈ bs ↔ ∃ a ∈ l, f a = .ok b := by
  induction l generalizing bs with
  | nil =>
    cases h
    simp
  | cons a l ih =>
    obtain ⟨c, r, hc, hr, rfl⟩ := mapM_eq_ok_cons.mp h
    rw [List.mem_cons, ih hr]
    constructor
    · rintro (rfl | ⟨d, hd, ran⟩)
      · exact ⟨a, List.mem_cons_self .., hc⟩
      · exact ⟨d, List.mem_cons_of_mem _ hd, ran⟩
    · rintro ⟨d, hd, ran⟩
      rcases List.mem_cons.mp hd with rfl | hd
      · exact .inl (Except.ok.inj (ran.symm.trans hc))
      · exact .inr ⟨d, hd, ran⟩

/-- If a list has a result, so has every item. -/
theorem ok_of_mapM_ok {f : α → Except ε β} {l : List α} {bs : List β} (h : l.mapM f = .ok bs) :
    ∀ a ∈ l, ∃ b, f a = .ok b := by
  induction l generalizing bs with
  | nil => simp
  | cons a l ih =>
    obtain ⟨b, r, hb, hr, _⟩ := mapM_eq_ok_cons.mp h
    exact List.forall_mem_cons.mpr ⟨⟨b, hb⟩, ih hr⟩

/-- A list has a result if every item has one. -/
theorem mapM_ok_of_ok {f : α → Except ε β} {l : List α} (h : ∀ a ∈ l, ∃ b, f a = .ok b) :
    ∃ bs, l.mapM f = .ok bs := by
  induction l with
  | nil => exact ⟨[], rfl⟩
  | cons a l inductionHypothesis =>
    obtain ⟨⟨b, here⟩, others⟩ := List.forall_mem_cons.mp h
    obtain ⟨bs, later⟩ := inductionHypothesis others
    exact ⟨b :: bs, mapM_eq_ok_cons.mpr ⟨b, bs, here, later, rfl⟩⟩

/-- Results that belong to the items with some property can be told by a property of their own. -/
theorem filter_of_mapM_ok {f : α → Except ε β} {l : List α} {bs : List β} {p : α → Bool}
    {q : β → Bool} (h : l.mapM f = .ok bs) (same : ∀ a ∈ l, ∀ b, f a = .ok b → q b = p a) :
    (l.filter p).mapM f = .ok (bs.filter q) := by
  induction l generalizing bs with
  | nil =>
    cases h
    rfl
  | cons a l ih =>
    obtain ⟨b, r, hb, hr, rfl⟩ := mapM_eq_ok_cons.mp h
    have rest := ih hr (fun c hc => same c (List.mem_cons_of_mem _ hc))
    rw [List.filter_cons, List.filter_cons, same a (List.mem_cons_self ..) b hb]
    split
    · exact mapM_eq_ok_cons.mpr ⟨b, _, hb, rest, rfl⟩
    · exact rest

theorem eq_nil_of_mapM_ok {f : α → Except ε β} {l : List α} {bs : List β} (h : l.mapM f = .ok bs) :
    bs = [] ↔ l = [] := by
  cases l with
  | nil =>
    cases h
    simp
  | cons a l =>
    obtain ⟨b, r, _, _, rfl⟩ := mapM_eq_ok_cons.mp h
    simp

theorem forM_eq_ok {f : α → Except ε Unit} {l : List α} {u : Unit} (h : l.forM f = .ok u) :
    ∀ a ∈ l, f a = .ok () := by
  induction l with
  | nil => simp
  | cons a l ih =>
    obtain ⟨_, ha, h⟩ := bind_eq_ok.mp h
    exact List.forall_mem_cons.mpr ⟨ha, ih h⟩

end Except

section Stateful

variable {σ ε α β : Type} {s s' : σ}

theorem run_bind_ok {m : StateT σ (Except ε) α} {f : α → StateT σ (Except ε) β} {b : β} :
    (m >>= f).run s = .ok (b, s') ↔
      ∃ a t, m.run s = .ok (a, t) ∧ (f a).run t = .ok (b, s') := by
  simp only [StateT.run_bind, bind_eq_ok, Prod.exists]

theorem run_pure_ok {a b : α} :
    (pure a : StateT σ (Except ε) α).run s = .ok (b, s') ↔ a = b ∧ s = s' := by
  rw [StateT.run_pure]
  simp [pure, Except.pure]

theorem run_throw_ok {e : ε} {b : α} :
    (throw e : StateT σ (Except ε) α).run s = .ok (b, s') ↔ False := by
  simp [throw, throwThe, MonadExceptOf.throw, StateT.lift, StateT.run, bind, Except.bind]

theorem run_lift_ok {x : Except ε α} {a : α} :
    (liftM x : StateT σ (Except ε) α).run s = .ok (a, s') ↔ x = .ok a ∧ s = s' := by
  cases x <;> simp [liftM, monadLift, MonadLift.monadLift, StateT.lift, StateT.run, bind,
    Except.bind, pure, Except.pure]

end Stateful

end TreeQuery
