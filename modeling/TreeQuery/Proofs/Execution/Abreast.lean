import Mathlib.Data.List.Forall2
import TreeQuery.Proofs.Lockstep
import TreeQuery.Session

/-!
Two runs side by side against one database. They end alike, and in sessions that are alike, as long
as each statement of one is answered like the statement of the other in its place.
-/

namespace TreeQuery

variable {σ ε ε' α β γ δ : Type}

namespace Run

/-- From related sessions on, both runs end alike and in related sessions. -/
def Abreast (S : Session σ → Session σ → Prop) (R : α → β → Prop) (x : Run σ ε α) (y : Run σ ε β) :
    Prop :=
  ∀ s t, S s t → Outcomes R (x s).1 (y t).1 ∧ S (x s).2 (y t).2

namespace Abreast

variable {S : Session σ → Session σ → Prop} {R : α → β → Prop} {T : γ → δ → Prop}

theorem pure {a : α} {b : β} (related : R a b) :
    Abreast S R (pure a : Run σ ε α) (pure b) := fun _ _ sessions => ⟨.ok related, sessions⟩

theorem fail (e : ε) : Abreast S R (fail e : Run σ ε α) (fail e) :=
  fun _ _ sessions => ⟨.error _, sessions⟩

theorem hang : Abreast S R (hang : Run σ ε α) hang := fun _ _ sessions => ⟨.error _, sessions⟩

theorem bind {x : Run σ ε α} {y : Run σ ε β} {f : α → Run σ ε γ} {g : β → Run σ ε δ}
    (first : Abreast S R x y) (later : ∀ a b, R a b → Abreast S T (f a) (g b)) :
    Abreast S T (x >>= f) (y >>= g) := by
  intro s t sessions
  obtain ⟨ends, sessions⟩ := first s t sessions
  simp only [Bind.bind]
  generalize x s = r at ends sessions ⊢
  generalize y t = r' at ends sessions ⊢
  obtain ⟨r, s⟩ := r
  obtain ⟨r', t⟩ := r'
  cases ends with
  | ok related => exact later _ _ related s t sessions
  | error e => exact ⟨.error e, sessions⟩

theorem map {x : Run σ ε α} {y : Run σ ε β} {f : α → γ} {g : β → δ} (h : Abreast S R x y)
    (later : ∀ a b, R a b → T (f a) (g b)) : Abreast S T (f <$> x) (g <$> y) :=
  h.bind (fun a b related => pure (later a b related))

theorem ite {c : Prop} [Decidable c] {x x' : Run σ ε α} {y y' : Run σ ε β}
    (yes : c → Abreast S R x y) (no : ¬c → Abreast S R x' y') :
    Abreast S R (if c then x else x') (if c then y else y') := by
  by_cases h : c
  · rw [if_pos h, if_pos h]
    exact yes h
  · rw [if_neg h, if_neg h]
    exact no h

theorem ofExcept {x : Except ε' α} {y : Except ε' β} (h : Outcomes R x y) (f : ε' → ε) :
    Abreast S R (ofExcept f x) (ofExcept f y) := by
  cases h with
  | ok related => exact pure related
  | error e => exact fail (f e)

/-- What stands beside two runs is also waited for alike. -/
theorem beside (w : Waiting) {x : Run σ ε α} {y : Run σ ε β} {a : α} {b : β}
    {f : α → Run σ ε γ} {g : β → Run σ ε δ} (first : Abreast S R x y) (instead : R a b)
    (later : ∀ a b, R a b → Abreast S T (f a) (g b)) :
    Abreast S T (beside w x a f) (beside w y b g) := by
  intro s t sessions
  obtain ⟨ends, sessions⟩ := first s t sessions
  unfold Run.beside
  generalize x s = r at ends sessions ⊢
  generalize y t = r' at ends sessions ⊢
  obtain ⟨r, s⟩ := r
  obtain ⟨r', t⟩ := r'
  cases ends with
  | ok related => exact later _ _ related s t sessions
  | error e =>
    cases e with
    | failed e => exact ⟨.error _, sessions⟩
    | hung =>
      cases w with
      | inTurn => exact ⟨.error _, sessions⟩
      -- the rest still runs and moves both sessions, though nothing is returned any more
      | together =>
        obtain ⟨ends, sessions⟩ := later a b instead s t sessions
        dsimp only at sessions ⊢
        generalize f a s = r at ends sessions ⊢
        generalize g b t = r' at ends sessions ⊢
        obtain ⟨r, s⟩ := r
        obtain ⟨r', t⟩ := r'
        cases ends with
        | ok _ => exact ⟨.error _, sessions⟩
        | error e => exact ⟨.error e, sessions⟩

end Abreast

end Run

/-- Sessions with databases in related states to which the same values were bound, statement by
statement. -/
structure Session.Alike (near : σ → σ → Prop) (s t : Session σ) : Prop where
  driver : near s.driver t.driver
  cancelled : s.cancelled = t.cancelled
  bound : s.issued.map Sql.Query.params = t.issued.map Sql.Query.params

inductive Delivery.Alike (R : Row → Row → Prop) : Delivery → Delivery → Prop
  | row {r r' : Row} (same : R r r') (cancels : Bool) :
    Delivery.Alike R ⟨.ok r, cancels⟩ ⟨.ok r', cancels⟩
  | error (e : Error) (cancels : Bool) : Delivery.Alike R ⟨.error e, cancels⟩ ⟨.error e, cancels⟩

/-- Answers with as many rows, each like the row in its place, or none out of one reason. -/
inductive Answer.Alike (R : Row → Row → Prop) : Answer → Answer → Prop
  | failed (e : Error) (cancels : Bool) : Answer.Alike R (.failed e cancels) (.failed e cancels)
  | hung : Answer.Alike R .hung .hung
  | rows (cancels : Bool) {ds ds' : List Delivery} (each : List.Forall₂ (Delivery.Alike R) ds ds') :
    Answer.Alike R (.rows cancels ds) (.rows cancels ds')

/-- From related states on, the database answers both statements alike. -/
def Driver.AnswersAlike (d : Driver σ) (near : σ → σ → Prop) (R : Row → Row → Prop)
    (q q' : Sql.Query) : Prop :=
  ∀ s t, near s t → (d.answer q s).1.Alike R (d.answer q' t).1 ∧
    near (d.answer q s).2 (d.answer q' t).2

namespace Session

open Run (Abreast)

variable {near : σ → σ → Prop} {R : Row → Row → Prop} {wrap : Error → ε}

theorem checkCancelled_abreast :
    Abreast (Alike near) Eq (checkCancelled wrap : Run σ ε Unit) (checkCancelled wrap) := by
  intro s t sessions
  have ends (s : Session σ) : (checkCancelled wrap : Run σ ε Unit) s =
      if s.cancelled then Run.fail (wrap .cancelled) s else (.ok (), s) := by
    simp only [checkCancelled, Bind.bind, Run.get]
    split <;> rfl
  rw [ends, ends, sessions.cancelled]
  split
  · exact Abreast.fail _ s t sessions
  · exact ⟨.ok rfl, sessions⟩

theorem cancelIf_abreast (b : Bool) :
    Abreast (Alike near) Eq (Run.cancelIf b : Run σ ε Unit) (Run.cancelIf b) :=
  fun _ _ sessions =>
    ⟨.ok rfl, sessions.driver, congrArg (· || b) sessions.cancelled, sessions.bound⟩

theorem readAll_abreast {ds ds' : List Delivery} (each : List.Forall₂ (Delivery.Alike R) ds ds') :
    Abreast (Alike near) (List.Forall₂ R) (readAll wrap ds : Run σ ε (List Row))
      (readAll wrap ds') := by
  induction each with
  | nil => exact checkCancelled_abreast.bind (fun _ _ _ => .pure .nil)
  | cons first _ inductionHypothesis =>
    apply checkCancelled_abreast.bind
    intro _ _ _
    cases first with
    | row same cancels =>
      apply (cancelIf_abreast cancels).bind
      intro _ _ _
      apply (Abreast.ofExcept (.ok same) wrap).bind
      intro r r' here
      exact inductionHypothesis.bind (fun _ _ later => .pure (.cons here later))
    | error e cancels =>
      apply (cancelIf_abreast cancels).bind
      intro _ _ _
      exact (Abreast.ofExcept (R := R) (.error e) wrap).bind
        (fun _ _ here => inductionHypothesis.bind (fun _ _ later => .pure (.cons here later)))

theorem receive_abreast {a a' : Answer} (same : a.Alike R a') :
    Abreast (Alike near) (List.Forall₂ R) (receive wrap a : Run σ ε (List Row))
      (receive wrap a') := by
  cases same with
  | failed e cancels => exact (cancelIf_abreast cancels).bind (fun _ _ _ => .fail _)
  | hung => exact (cancelIf_abreast true).bind (fun _ _ _ => .hang)
  | rows cancels each => exact (cancelIf_abreast cancels).bind (fun _ _ _ => readAll_abreast each)

/-- Statements that bind the same values and are answered alike are queried alike. -/
theorem query_abreast {d : Driver σ} {q q' : Sql.Query} (bound : q.params = q'.params)
    (answers : d.AnswersAlike near R q q') :
    Abreast (Alike near) (List.Forall₂ R) (query d wrap q : Run σ ε (List Row))
      (query d wrap q') := by
  have asked : Abreast (Alike near) (Answer.Alike R) (ask d q : Run σ ε Answer) (ask d q') := by
    intro s t sessions
    obtain ⟨same, next⟩ := answers s.driver t.driver sessions.driver
    refine ⟨.ok same, next, sessions.cancelled, ?_⟩
    simp only [ask, List.map_append, List.map_cons, List.map_nil, sessions.bound, bound]
  apply checkCancelled_abreast.bind
  intro _ _ _
  exact asked.bind (fun _ _ same => receive_abreast same)

end Session

end TreeQuery
