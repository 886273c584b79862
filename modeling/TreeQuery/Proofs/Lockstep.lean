import TreeQuery.Proofs.Success

/-!
Two computations side by side. They fail in the same way or succeed with related results, and where
they carry a state, related states before lead to related states after.
-/

namespace TreeQuery

section Except

variable {ε ε' α β γ δ : Type} {R : α → β → Prop} {T : γ → δ → Prop}

/-- Both computations end in one error, or in related results. -/
inductive Outcomes (R : α → β → Prop) : Except ε α → Except ε β → Prop
  | ok {a : α} {b : β} (related : R a b) : Outcomes R (.ok a) (.ok b)
  | error (e : ε) : Outcomes R (.error e) (.error e)

namespace Outcomes

/-- What is known of each computation by itself. -/
theorem known {x : Except ε α} {y : Except ε β} (h : Outcomes R x y) :
    Outcomes (fun a b => R a b ∧ x = .ok a ∧ y = .ok b) x y := by
  cases h with
  | ok related => exact .ok ⟨related, rfl, rfl⟩
  | error e => exact .error e

theorem same (x : Except ε α) : Outcomes Eq x x := by
  cases x with
  | ok a => exact .ok rfl
  | error e => exact .error e

/-- A computation beside itself, with what is known of its result. -/
theorem self (x : Except ε α) : Outcomes (fun a b => a = b ∧ x = .ok a) x x := by
  cases x with
  | ok a => exact .ok ⟨rfl, rfl⟩
  | error e => exact .error e

theorem ok_left {x : Except ε α} {b : β} (h : Outcomes R x (.ok b)) : ∃ a, x = .ok a := by
  cases h with
  | ok _ => exact ⟨_, rfl⟩

theorem eq_iff {x y : Except ε α} : Outcomes Eq x y ↔ x = y := by
  constructor
  · rintro (rfl | _) <;> rfl
  · rintro rfl
    exact same x

theorem bind {x : Except ε α} {y : Except ε β} {f : α → Except ε γ} {g : β → Except ε δ}
    (first : Outcomes R x y) (later : ∀ a b, R a b → Outcomes T (f a) (g b)) :
    Outcomes T (x >>= f) (y >>= g) := by
  cases first with
  | ok related => exact later _ _ related
  | error e => exact .error e

theorem map {x : Except ε α} {y : Except ε β} {f : α → γ} {g : β → δ} (h : Outcomes R x y)
    (later : ∀ a b, R a b → T (f a) (g b)) : Outcomes T (x.map f) (y.map g) := by
  cases h with
  | ok related => exact .ok (later _ _ related)
  | error e => exact .error e

theorem mapError {x : Except ε α} {y : Except ε β} (f : ε → ε') (h : Outcomes R x y) :
    Outcomes R (x.mapError f) (y.mapError f) := by
  cases h with
  | ok related => exact .ok related
  | error e => exact .error (f e)

end Outcomes

end Except

/-- Any two results. -/
def Any {α β : Type} (_ : α) (_ : β) : Prop := True

/-- From related states on, both computations end alike, and in related states. -/
def InStep {σ τ ε α β : Type} (S : σ → τ → Prop) (R : α → β → Prop) (m : StateT σ (Except ε) α)
    (m' : StateT τ (Except ε) β) : Prop :=
  ∀ s s', S s s' → Outcomes (fun x y => R x.1 y.1 ∧ S x.2 y.2) (m.run s) (m'.run s')

namespace InStep

variable {σ τ ε α β γ δ : Type} {S : σ → τ → Prop} {R : α → β → Prop} {T : γ → δ → Prop}
variable {m : StateT σ (Except ε) α} {m' : StateT τ (Except ε) β}

theorem pure {a : α} {b : β} (related : R a b) :
    InStep S R (pure a : StateT σ (Except ε) α) (pure b) :=
  fun _ _ states => .ok ⟨related, states⟩

theorem throw (e : ε) : InStep S R (throw e : StateT σ (Except ε) α) (throw e) :=
  fun _ _ _ => .error e

theorem bind {f : α → StateT σ (Except ε) γ} {g : β → StateT τ (Except ε) δ}
    (first : InStep S R m m') (later : ∀ a b, R a b → InStep S T (f a) (g b)) :
    InStep S T (m >>= f) (m' >>= g) := by
  intro s s' states
  rw [StateT.run_bind, StateT.run_bind]
  exact (first s s' states).bind (fun x y ends => later x.1 y.1 ends.1 x.2 y.2 ends.2)

theorem lift {x : Except ε α} {y : Except ε β} (h : Outcomes R x y) :
    InStep S R (liftM x : StateT σ (Except ε) α) (liftM y) := by
  intro s s' states
  cases h with
  | ok related => exact .ok ⟨related, states⟩
  | error e => exact .error e

theorem lift_self (x : Except ε α) :
    InStep S (fun a b => a = b ∧ x = .ok a) (liftM x : StateT σ (Except ε) α) (liftM x) :=
  lift (.self x)

theorem ite {c : Prop} [Decidable c] {n : StateT σ (Except ε) α} {n' : StateT τ (Except ε) β}
    (yes : c → InStep S R m m') (no : ¬c → InStep S R n n') :
    InStep S R (if c then m else n) (if c then m' else n') := by
  by_cases h : c
  · rw [if_pos h, if_pos h]
    exact yes h
  · rw [if_neg h, if_neg h]
    exact no h

end InStep

end TreeQuery
