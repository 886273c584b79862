import Mathlib.Data.List.Basic
import TreeQuery.Text.Identifier

/-!
A quoted name at the end of a text can be read off it. Quotes inside a name come in pairs, so the
quote that opens the name cannot be a part of a longer one.
-/

namespace TreeQuery.Identifier

theorem escape_cons (c : Char) (cs : List Char) :
    escape (c :: cs) = if c = '"' then '"' :: '"' :: escape cs else c :: escape cs := rfl

theorem escape_injective {a b : List Char} (h : escape a = escape b) : a = b := by
  induction a generalizing b with
  | nil =>
    cases b with
    | nil => rfl
    | cons d b =>
      rw [escape_cons] at h
      split at h <;> cases h
  | cons c a ih =>
    cases b with
    | nil =>
      rw [escape_cons] at h
      split at h <;> cases h
    | cons d b =>
      rw [escape_cons, escape_cons] at h
      by_cases hc : c = '"' <;> by_cases hd : d = '"'
      · simp only [hc, hd, if_true, List.cons.injEq, true_and] at h
        rw [hc, hd, ih h]
      · simp only [hc, if_neg hd, if_true, List.cons.injEq] at h
        exact absurd h.1.symm hd
      · simp only [hd, if_neg hc, if_true, List.cons.injEq] at h
        exact absurd h.1 hc
      · simp only [hc, hd, if_false, List.cons.injEq] at h
        rw [h.1, ih h.2]

theorem count_escape (cs : List Char) : (escape cs).count '"' = 2 * cs.count '"' := by
  induction cs with
  | nil => rfl
  | cons c cs ih =>
    rw [escape_cons]
    by_cases h : c = '"'
    · simp [h, ih]
      omega
    · simp [h, ih]

/-- What follows a character that is not escaped was escaped by itself. -/
theorem escape_eq_append_cons {cs a b : List Char} {c : Char} (hc : c ≠ '"')
    (h : escape cs = a ++ c :: b) : ∃ r, b = escape r := by
  induction cs generalizing a with
  | nil => simp [escape] at h
  | cons d cs ih =>
    rw [escape_cons] at h
    split at h
    · match a, h with
      | [], h => exact absurd (List.cons.inj h).1.symm hc
      | [_], h => exact absurd (List.cons.inj (List.cons.inj h).2).1.symm hc
      | _ :: _ :: a, h => exact ih (List.cons.inj (List.cons.inj h).2).2
    · match a, h with
      | [], h => exact ⟨cs, (List.cons.inj h).2.symm⟩
      | _ :: a, h => exact ih (List.cons.inj h).2

/-- No escaped text goes on with an opening quote and another escaped text. -/
theorem escape_ne_append {a m n : List Char} (ha : a = [] ∨ ∃ b, a = b ++ [' ']) :
    escape m ≠ a ++ '"' :: escape n := by
  have odd (r : List Char) : escape r ≠ '"' :: escape n := by
    intro h
    have counts := congrArg (List.count '"') h
    rw [List.count_cons_self, count_escape, count_escape] at counts
    omega
  intro h
  rcases ha with rfl | ⟨b, rfl⟩
  · exact odd m h
  · rw [List.append_assoc, List.singleton_append] at h
    obtain ⟨r, hr⟩ := escape_eq_append_cons (by decide) h
    exact odd r hr.symm

theorem last_of_append {a b c : List Char} (h : a ++ [' ', '"'] = b ++ c) :
    c = [] ∨ ∃ d, c = d ++ ['"'] ∧ (d = [] ∨ ∃ e, d = e ++ [' ']) := by
  rcases List.eq_nil_or_concat c with rfl | ⟨d, x, rfl⟩
  · exact .inl rfl
  · have split : (a ++ [' ']) ++ ['"'] = (b ++ d) ++ [x] := by
      simpa using h
    obtain ⟨before, last⟩ := List.append_inj' split rfl
    refine .inr ⟨d, by rw [last, List.concat_eq_append], ?_⟩
    rcases List.eq_nil_or_concat d with rfl | ⟨e, y, rfl⟩
    · exact .inl rfl
    · rw [List.concat_eq_append, ← List.append_assoc] at before
      obtain ⟨_, last⟩ := List.append_inj' before rfl
      exact .inr ⟨e, by rw [last, List.concat_eq_append]⟩

/-- A name that is quoted after a space at the end of a text is given by the text. -/
theorem quote_inj_of_append {a b : List Char} {m n : String}
    (h : a ++ ' ' :: (quote m).toList = b ++ ' ' :: (quote n).toList) : m = n := by
  have longer {a : List Char} {m n : String}
      (h : escape m.toList = a ++ escape n.toList) (ha : a = [] ∨ ∃ d, a = d ++ ['"'] ∧
        (d = [] ∨ ∃ e, d = e ++ [' '])) : m = n := by
    rcases ha with rfl | ⟨d, rfl, hd⟩
    · exact String.toList_inj.mp (escape_injective h)
    · rw [List.append_assoc, List.singleton_append] at h
      exact absurd h (escape_ne_append hd)
  have opened : (a ++ [' ', '"']) ++ escape m.toList = (b ++ [' ', '"']) ++ escape n.toList := by
    have closed : (a ++ [' ', '"'] ++ escape m.toList) ++ ['"'] =
        (b ++ [' ', '"'] ++ escape n.toList) ++ ['"'] := by
      simpa [quote] using h
    exact List.append_cancel_right closed
  rcases List.append_eq_append_iff.mp opened with ⟨c, hb, hm⟩ | ⟨c, ha, hn⟩
  · exact longer hm (last_of_append hb)
  · exact (longer hn (last_of_append ha)).symm

end TreeQuery.Identifier
