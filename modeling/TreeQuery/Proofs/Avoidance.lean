import TreeQuery.Proofs.Session

/-!
Errors that a computation does not end with. Avoiding an error composes: a computation avoids what
all of its steps avoid, given that the steps before succeeded.
-/

namespace TreeQuery

section Except

variable {ε ε' α β : Type} {bad : ε → Prop}

def Avoids (bad : ε → Prop) (x : Except ε α) : Prop := ∀ e, x = .error e → ¬bad e

namespace Avoids

theorem ok (a : α) : Avoids bad (.ok a) := nofun

theorem error {e : ε} (h : ¬bad e) : Avoids bad (.error e : Except ε α) := by
  rintro _ ⟨⟩
  exact h

theorem bind {x : Except ε α} {f : α → Except ε β} (hx : Avoids bad x)
    (hf : ∀ a, x = .ok a → Avoids bad (f a)) : Avoids bad (x >>= f) := by
  cases x with
  | error e => exact error (hx e rfl)
  | ok a => exact hf a rfl

theorem mapM {f : α → Except ε β} {l : List α} (h : ∀ a ∈ l, Avoids bad (f a)) :
    Avoids bad (l.mapM f) := by
  induction l with
  | nil => exact ok _
  | cons a l ih =>
    rw [List.mapM_cons]
    refine bind (h a (List.mem_cons_self ..)) (fun b _ => ?_)
    exact bind (ih (fun c hc => h c (List.mem_cons_of_mem _ hc))) (fun _ _ => ok _)

theorem map {x : Except ε α} (h : Avoids bad x) (f : α → β) : Avoids bad (x.map f) := by
  cases x with
  | error e => exact error (h e rfl)
  | ok a => exact ok (f a)

theorem mapError_of {f : ε' → ε} {x : Except ε' α} (h : Avoids (fun e => bad (f e)) x) :
    Avoids bad (x.mapError f) := by
  cases x with
  | error e => exact error (h e rfl)
  | ok a => exact ok a

theorem mapError {f : ε' → ε} {x : Except ε' α} (h : ∀ e, ¬bad (f e)) :
    Avoids bad (x.mapError f) := mapError_of (fun e _ => h e)

end Avoids

end Except

section StateT

variable {τ ε α β : Type} {bad : ε → Prop}

/-- Whatever state a computation begins with, it does not end with a bad error. -/
def AvoidsFrom (bad : ε → Prop) (m : StateT τ (Except ε) α) : Prop := ∀ s, Avoids bad (m.run s)

namespace AvoidsFrom

variable {m : StateT τ (Except ε) α}

theorem pure (a : α) : AvoidsFrom bad (pure a : StateT τ (Except ε) α) := fun _ => .ok _

theorem modifyGet (f : τ → α × τ) :
    AvoidsFrom bad (modifyGet f : StateT τ (Except ε) α) := fun _ => .ok _

theorem throw {e : ε} (h : ¬bad e) : AvoidsFrom bad (throw e : StateT τ (Except ε) α) :=
  fun _ => .error h

theorem lift {x : Except ε α} (h : Avoids bad x) :
    AvoidsFrom bad (liftM x : StateT τ (Except ε) α) :=
  fun _ => h.bind (fun _ _ => .ok _)

/-- What follows need only avoid bad errors after what the first computation can return. -/
theorem bind_of_ran {f : α → StateT τ (Except ε) β} (first : AvoidsFrom bad m)
    (later : ∀ s a s', m.run s = .ok (a, s') → AvoidsFrom bad (f a)) :
    AvoidsFrom bad (m >>= f) := by
  intro s
  rw [StateT.run_bind]
  exact (first s).bind (fun x ran => later s x.1 x.2 ran x.2)

theorem bind {f : α → StateT τ (Except ε) β} (first : AvoidsFrom bad m)
    (later : ∀ a, AvoidsFrom bad (f a)) : AvoidsFrom bad (m >>= f) :=
  first.bind_of_ran (fun _ a _ _ => later a)

theorem lift_bind {x : Except ε α} {f : α → StateT τ (Except ε) β} (h : Avoids bad x)
    (later : ∀ a, x = .ok a → AvoidsFrom bad (f a)) : AvoidsFrom bad (liftM x >>= f) :=
  (lift h).bind_of_ran (fun _ a _ ran => later a (run_lift_ok.mp ran).1)

theorem ite {c : Prop} [Decidable c] {m' : StateT τ (Except ε) α} (yes : c → AvoidsFrom bad m)
    (no : ¬c → AvoidsFrom bad m') : AvoidsFrom bad (if c then m else m') := by
  by_cases h : c
  · rw [if_pos h]
    exact yes h
  · rw [if_neg h]
    exact no h

end AvoidsFrom

end StateT

namespace Run

variable {σ ε ε' α β : Type} {good : σ → Prop} {bad : ε → Prop}

/-- A run that ends in a good state of the database started in one, and if it failed there, the
error is not bad. A run that hangs does not end. -/
structure Sound (good : σ → Prop) (bad : ε → Prop) (x : Run σ ε α) : Prop where
  started : ∀ s, good (x s).2.driver → good s.driver
  failed : ∀ s e s', x s = (.error (.failed e), s') → good s'.driver → ¬bad e

/-- The state before is good if the one after is. -/
abbrev Keeps (good : σ → Prop) (x : Run σ ε α) : Prop := Sound good (fun _ => False) x

namespace Sound

theorem keeps {x : Run σ ε α} (h : Sound good bad x) : Keeps good x :=
  ⟨h.started, fun _ _ _ _ _ => id⟩

theorem pure (a : α) : Sound good bad (pure a : Run σ ε α) := ⟨fun _ => id, nofun⟩

theorem fail {e : ε} (h : ¬bad e) : Sound good bad (fail e : Run σ ε α) where
  started _ := id
  failed := by
    rintro s _ _ ⟨⟩ _
    exact h

theorem hang : Sound good bad (hang : Run σ ε α) := ⟨fun _ => id, nofun⟩

theorem get : Sound good bad (get : Run σ ε (Session σ)) := ⟨fun _ => id, nofun⟩

theorem cancelIf (b : Bool) : Sound good bad (cancelIf b : Run σ ε Unit) := ⟨fun _ => id, nofun⟩

theorem ofExcept {f : ε' → ε} {x : Except ε' α} (h : Avoids (fun e => bad (f e)) x) :
    Sound good bad (ofExcept f x : Run σ ε α) := by
  cases x with
  | error e => exact fail (h e rfl)
  | ok a => exact pure a

/-- What follows need only avoid bad errors after a first run that ended in a good state. -/
theorem bind_of_good {x : Run σ ε α} {f : α → Run σ ε β} (hx : Sound good bad x)
    (hk : ∀ a, Keeps good (f a))
    (hf : ∀ s a s', x s = (.ok a, s') → good s'.driver → Sound good bad (f a)) :
    Sound good bad (x >>= f) := by
  constructor
  · intro s h
    apply hx.started s
    rcases ran : x s with ⟨e | a, t⟩
    · rwa [bind_of_error ran] at h
    · rw [bind_of_ok ran] at h
      exact (hk a).started t h
  · intro s e s' h last
    rcases ran : x s with ⟨stop | a, t⟩
    · rw [bind_of_error ran] at h
      cases h
      exact hx.failed s e s' ran last
    · rw [bind_of_ok ran] at h
      have before := (hk a).started t (by rw [h]; exact last)
      exact (hf s a t ran before).failed t e s' h last

theorem bind {x : Run σ ε α} {f : α → Run σ ε β} (hx : Sound good bad x)
    (hf : ∀ a, Sound good bad (f a)) : Sound good bad (x >>= f) :=
  hx.bind_of_good (fun a => (hf a).keeps) (fun _ a _ _ _ => hf a)

/-- What follows a computation that does not run at all need only be sound if that succeeds. -/
theorem ofExcept_bind {g : ε' → ε} {x : Except ε' α} {f : α → Run σ ε β}
    (hx : Avoids (fun e => bad (g e)) x) (hf : ∀ a, x = .ok a → Sound good bad (f a)) :
    Sound good bad (Run.ofExcept g x >>= f) := by
  cases x with
  | error e =>
    have failed : Sound good bad (Run.fail (g e) : Run σ ε β) := fail (hx e rfl)
    exact failed
  | ok a => exact hf a rfl

theorem beside {w : Waiting} {x : Run σ ε α} {a : α} {f : α → Run σ ε β} (hx : Sound good bad x)
    (hf : ∀ v, Sound good bad (f v)) : Sound good bad (beside w x a f) := by
  constructor
  · intro s h
    have first (r : Except (Stop ε) α) (t : Session σ) (ran : x s = (r, t))
        (ht : good t.driver) : good s.driver := hx.started s (by rw [ran]; exact ht)
    rw [Run.beside] at h
    split at h
    · rename_i v t ran
      exact first _ t ran ((hf v).started t h)
    · rename_i e t ran
      exact first _ t ran h
    · rename_i t ran
      split at h
      · exact first _ t ran h
      · refine first _ t ran ((hf a).started t ?_)
        split at h <;> rename_i ran' <;> rw [ran'] <;> exact h
  · intro s e s' h last
    rw [Run.beside] at h
    split at h
    · rename_i v t _
      exact (hf v).failed t e s' h last
    · rename_i e' t ran
      cases h
      exact hx.failed s e s' ran last
    · rename_i t _
      split at h
      · cases h
      split at h
      · rename_i stop t' ran
        cases h
        exact (hf a).failed t e s' ran last
      · cases h

end Sound

end Run

end TreeQuery
