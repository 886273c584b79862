import TreeQuery.Proofs.Params
import TreeQuery.Proofs.Sql.Words
import TreeQuery.Proofs.Success

/-!
Following a computation that binds values beside one that writes them in place. Values are bound in
another order than the one in which they are read, so the two results are related by the positions
that the values were given, and not by where they stand.
-/

namespace TreeQuery.Sql

open Plan (KeysetPage Node Paging Table)
open Worded (words map)

/-- The value of a placeholder in its place. -/
def Token.inPlace : Token → Token
  | .param _ v => .param 0 v
  | t => t

theorem inPlace_fixesPlain : FixesPlain Token.inPlace := by
  intro t plain
  cases t with
  | param position v => cases plain
  | _ => rfl

/-- Parts with the placeholders of some bound values, and the same parts with the values in place. -/
structure Stands {α : Type} [Worded α] (bound : List (Nat × Value)) (x y : α) : Prop where
  inPlace : map Token.inPlace x = y
  places : ∀ position v, .param position v ∈ words x ↔ (position, v) ∈ bound

/-- Two computations end alike: with one error, or with results that are related by the values
that the first has bound on top of others. -/
inductive EndsAlike {α β : Type} (R : List (Nat × Value) → α → β → Prop) (before : List Value) :
    Except SqlError (α × Params) → Except SqlError β → Prop
  | failed (e : SqlError) : EndsAlike R before (.error e) (.error e)
  | done {x : α} {y : β} (more : List Value) (related : R (Params.numbered before.length more) x y) :
    EndsAlike R before (.ok (x, .ofValues (before ++ more))) (.ok y)

/-- A computation that binds values does what a computation without parameters does. -/
def Follows {α β : Type} (R : List (Nat × Value) → α → β → Prop) (m : Binder α)
    (w : Except SqlError β) : Prop :=
  ∀ before, EndsAlike R before (m.run (.ofValues before)) w

namespace Follows

variable {α β γ δ : Type} {R : List (Nat × Value) → α → β → Prop}
variable {S : List (Nat × Value) → γ → δ → Prop}

theorem pure {x : α} {y : β} (h : R [] x y) : Follows R (pure x) (pure y) := by
  intro before
  have done : EndsAlike R before (.ok (x, .ofValues (before ++ []))) (.ok y) := .done [] h
  rwa [List.append_nil] at done

theorem throw (e : SqlError) : Follows R (throw e) (throw e) := fun _ => .failed e

/-- What is rendered later may use the parts rendered before, with what they bound. -/
theorem bind {m : Binder α} {w : Except SqlError β} {f : α → Binder γ} {g : β → Except SqlError δ}
    (first : Follows R m w)
    (later : ∀ bound x y, R bound x y → Follows (fun more => S (bound ++ more)) (f x) (g y)) :
    Follows S (m >>= f) (w >>= g) := by
  intro before
  rw [StateT.run_bind]
  have ends := first before
  generalize m.run (.ofValues before) = r at ends ⊢
  cases ends with
  | failed e => exact .failed e
  | @done x y here related =>
    change EndsAlike S before ((f x).run (.ofValues (before ++ here))) (g y)
    have ends := later _ x y related (before ++ here)
    generalize (f x).run (.ofValues (before ++ here)) = r at ends ⊢
    generalize g y = w at ends ⊢
    cases ends with
    | failed e => exact .failed e
    | done more both =>
      rw [List.append_assoc]
      apply EndsAlike.done
      rwa [Params.numbered_append, ← List.length_append]

theorem lift (w : Except SqlError α) :
    Follows (fun bound x y => bound = [] ∧ x = y) (liftM w : Binder α) w := by
  intro before
  cases w with
  | error e => exact .failed e
  | ok x =>
    have unbound : Follows (fun bound x y => bound = [] ∧ x = y) (Pure.pure x : Binder α)
        (Pure.pure x) := pure ⟨rfl, rfl⟩
    exact unbound before

theorem ite {c : Prop} [Decidable c] {m m' : Binder α} {w w' : Except SqlError β}
    (yes : c → Follows R m w) (no : ¬c → Follows R m' w') :
    Follows R (if c then m else m') (if c then w else w') := by
  by_cases h : c
  · rw [if_pos h, if_pos h]
    exact yes h
  · rw [if_neg h, if_neg h]
    exact no h

/-- Nothing is bound, and the results are the same. -/
def Unbound {α : Type} (bound : List (Nat × Value)) (x y : α) : Prop := bound = [] ∧ x = y

/-- What follows a binding of values goes on beside the values in place. -/
theorem bind_pure {m : Binder α} {y : β} {f : α → Binder γ} {w : Except SqlError δ}
    (first : Follows R m (Pure.pure y))
    (later : ∀ bound x, R bound x y → Follows (fun more => S (bound ++ more)) (f x) w) :
    Follows S (m >>= f) w := by
  have exactly : Follows (fun bound x z => R bound x z ∧ z = y) m (Pure.pure y) := by
    intro before
    have ends := first before
    generalize m.run (.ofValues before) = r at ends ⊢
    cases ends with
    | done more related => exact .done more ⟨related, rfl⟩
  have both : Follows S (m >>= f) ((Pure.pure y : Except SqlError β) >>= fun _ => w) := by
    apply exactly.bind
    rintro bound x _ ⟨related, rfl⟩
    exact later bound x related
  exact both

end Follows

namespace Stands

variable {α : Type} [Worded α] {b c : List (Nat × Value)}

/-- It does not matter in which order the values were bound. -/
theorem reorder {x y : α} (h : Stands b x y) (same : ∀ p, p ∈ c ↔ p ∈ b) : Stands c x y :=
  ⟨h.inPlace, fun position v => (h.places position v).trans (same _).symm⟩

theorem nil : Stands [] ([] : List α) [] := ⟨rfl, by simp⟩

theorem append {l l' m m' : List α} (h : Stands b l l') (h' : Stands c m m') :
    Stands (b ++ c) (l ++ m) (l' ++ m') where
  inPlace := by rw [map_append, h.inPlace, h'.inPlace]
  places position v := by
    rw [words_append, List.mem_append, List.mem_append, h.places, h'.places]

theorem one {x y : α} (h : Stands b x y) : Stands b [x] [y] where
  inPlace := by rw [map_cons, h.inPlace, map_nil]
  places position v := by
    rw [words_cons, words_nil, List.append_nil]
    exact h.places position v

theorem cons {x y : α} {l m : List α} (h : Stands b x y) (h' : Stands c l m) :
    Stands (b ++ c) (x :: l) (y :: m) := h.one.append h'

theorem plain {f : Fragment} (h : ∀ t ∈ f, t.isParam = false) : Stands [] f f where
  inPlace := map_plain inPlace_fixesPlain h
  places position v := by
    rw [words_fragment]
    constructor
    · intro within
      cases h _ within
    · intro bound
      cases bound

/-- Tokens without placeholders around a fragment. -/
theorem surround {f g : Fragment} (h : Stands b f g) (before after : Fragment)
    (hb : ∀ t ∈ before, t.isParam = false) (ha : ∀ t ∈ after, t.isParam = false) :
    Stands b (before ++ f ++ after) (before ++ g ++ after) := by
  apply (((plain hb).append h).append (plain ha)).reorder
  simp

theorem between {t : Token} (ht : t.isParam = false) {fs gs : List Fragment}
    (h : Stands b fs gs) : Stands b (between t fs) (between t gs) where
  inPlace := by rw [map_between, h.inPlace, inPlace_fixesPlain t ht]
  places position v := by
    rw [words_fragment, mem_between ht, h.places]

theorem pastCursor {cs ds : List CursorTerm} (h : Stands b cs ds) :
    Stands b (pastCursor cs) (pastCursor ds) where
  inPlace := by rw [map_pastCursor inPlace_fixesPlain, h.inPlace]
  places position v := by
    rw [words_fragment, mem_pastCursor, h.places]

end Stands

end TreeQuery.Sql
