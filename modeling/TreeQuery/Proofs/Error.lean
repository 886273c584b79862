import Mathlib.Data.List.Induction
import TreeQuery.Error

/-!
Contexts of errors. A context is written in front of the error, in whichever way it is put there,
and the error keeps its classes. The classes of the context are kept as well if it stands alone, but
of a context that has causes of its own only the text is kept.
-/

namespace TreeQuery.Error

section Step

variable (e c : Error) (k : ErrorClass)

theorem message_of (cause : Cause) : (of cause).message = cause.message :=
  String.intercalate_singleton

theorem message_cons (cause : Cause) :
    (⟨cause, e.causes⟩ : Error).message = cause.message ++ ": " ++ e.message :=
  String.intercalate_cons_cons

theorem isA_of (cause : Cause) : (of cause).isA k = cause.belongsTo k := by
  rw [isA, causes, of, List.any_cons, List.any_nil, Bool.or_false]

theorem isA_cons (cause : Cause) :
    (⟨cause, e.causes⟩ : Error).isA k = (cause.belongsTo k || e.isA k) :=
  List.any_cons

theorem message_wrap : (e.wrap c).message = c.message ++ ": " ++ e.message :=
  message_cons e (.note c.message)

/-- A text alone is of no class. -/
theorem isA_wrap : (e.wrap c).isA k = e.isA k := by
  have plain : (Cause.note c.message).belongsTo k = false := by cases k <;> rfl
  rw [wrap, isA_cons, plain, Bool.false_or]

/-- A context either stands alone and becomes the most recent cause, or is wrapped. -/
theorem context_cases :
    (∃ cause, c = of cause ∧ e.context c = ⟨cause, e.causes⟩) ∨
      (c.earlier ≠ [] ∧ e.context c = e.wrap c) := by
  obtain ⟨cause, earlier⟩ := c
  cases earlier with
  | nil => exact .inl ⟨cause, rfl, rfl⟩
  | cons first earlier => exact .inr ⟨List.cons_ne_nil _ _, rfl⟩

theorem message_context : (e.context c).message = c.message ++ ": " ++ e.message := by
  rcases context_cases e c with ⟨cause, rfl, alone⟩ | ⟨-, wrapped⟩
  · rw [alone, message_cons, message_of]
  · rw [wrapped, message_wrap]

theorem isA_context : (e.context c).isA k = (c.earlier.isEmpty && c.isA k || e.isA k) := by
  rcases context_cases e c with ⟨cause, rfl, alone⟩ | ⟨caused, wrapped⟩
  · rw [alone, isA_cons, isA_of, of, List.isEmpty_nil, Bool.true_and]
  · rw [wrapped, isA_wrap, List.isEmpty_eq_false_iff.mpr caused, Bool.false_and, Bool.false_or]

end Step

section Run

variable (e : Error) (cs : List Error)

/-- Contexts that were added one after the other are written from the last to the first. -/
theorem message_foldl_context :
    (cs.foldl context e).message =
      String.intercalate ": " ((cs.map message).reverse ++ [e.message]) := by
  induction cs using List.reverseRecOn with
  | nil => exact String.intercalate_singleton.symm
  | append_singleton cs c inductionHypothesis =>
    rw [List.foldl_append, List.foldl_cons, List.foldl_nil, message_context, inductionHypothesis,
      List.map_append, List.map_singleton, List.reverse_append, List.reverse_singleton,
      List.singleton_append, List.cons_append,
      String.intercalate_cons_of_ne_nil (List.append_ne_nil_of_right_ne_nil _ (List.cons_ne_nil _ _))]

/-- However many contexts are added, an error keeps its classes. -/
theorem isA_foldl_context (k : ErrorClass) :
    (cs.foldl context e).isA k =
      (e.isA k || cs.any (fun c => c.earlier.isEmpty && c.isA k)) := by
  induction cs generalizing e with
  | nil => exact (Bool.or_false _).symm
  | cons c cs inductionHypothesis =>
    rw [List.foldl_cons, inductionHypothesis, isA_context, List.any_cons, Bool.or_comm (_ && _),
      Bool.or_assoc]

end Run

/-- However a context is put in front of an error, its text comes first, then a colon and the text
of the error. The error keeps its classes, and those that only the context has are kept if and only
if the context has no causes of its own and nobody else holds it. -/
theorem context_isA_iff (e c : Error) :
    (e.context c).message = c.message ++ ": " ++ e.message ∧
    (e.wrap c).message = c.message ++ ": " ++ e.message ∧
    ∀ k, ((e.context c).isA k = true ↔ e.isA k = true ∨ c.earlier = [] ∧ c.isA k = true) ∧
      ((e.wrap c).isA k = true ↔ e.isA k = true) := by
  refine ⟨message_context e c, message_wrap e c, fun k => ⟨?_, ?_⟩⟩
  · rw [isA_context, Bool.or_eq_true, Bool.and_eq_true, List.isEmpty_iff, or_comm]
  · rw [isA_wrap]

/-- Cancellation is forgotten with a context that has a cause of its own, and with a context that is
held by someone else. -/
theorem context_forgets_cancelled :
    ¬(((note "no rows").context (cancelled.context (note "reading"))).isA .cancelled = true ↔
      (note "no rows").isA .cancelled = true ∨
        (cancelled.context (note "reading")).isA .cancelled = true) ∧
    ¬(((note "no rows").wrap cancelled).isA .cancelled = true ↔
      (note "no rows").isA .cancelled = true ∨ cancelled.isA .cancelled = true) := by
  decide

end TreeQuery.Error
