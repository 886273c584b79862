import TreeQuery.Proofs.Json.Members

/-!
An array is read back if its items are, provided that there is room for one more container.
-/

namespace TreeQuery.Json

variable {depth : Nat} {j : Json}

/-- What is read back starts with a character that a value can start with. -/
theorem ReadsBack.opens (value : ReadsBack depth j) :
    ∃ c cs, chars j = c :: cs ∧ c ≠ ']' := by
  have read := value.value (3 * (chars j).length) [] (Nat.le_succ _) (by simp [Ends])
  cases written : chars j with
  | nil =>
    rw [written] at read
    cases read
  | cons c cs =>
    refine ⟨c, cs, rfl, ?_⟩
    rintro rfl
    rw [written] at read
    cases depth <;> simp [readValue?] at read

/-- An item is read up to what follows it. -/
theorem ReadsBack.read (value : ReadsBack depth j) {fuel : Nat} {rest : List Char}
    (enough : 3 * (chars j).length ≤ fuel) (ends : Ends rest) :
    readValue? fuel depth (chars j ++ rest) = some (j, rest) := by
  obtain ⟨c, cs, written, _⟩ := value.opens
  have some : 1 ≤ fuel := by
    rw [written, List.length_cons] at enough
    omega
  obtain ⟨fuel, rfl⟩ := Nat.exists_eq_add_of_le' some
  exact value.value fuel rest enough ends

theorem readMoreItems?_closed (value : ReadsBack depth j) {fuel : Nat} {rest r : List Char}
    (enough : 3 * (chars j).length ≤ fuel) (ends : Ends rest) (closed : skipGap rest = ']' :: r) :
    readMoreItems? (fuel + 1) depth (chars j ++ rest) = some ([j], r) := by
  rw [readMoreItems?, value.read enough ends]
  simp only [Option.bind_eq_bind, Option.bind_some, closed]

theorem readMoreItems?_comma (value : ReadsBack depth j) {fuel : Nat} {rest r : List Char}
    (enough : 3 * (chars j).length ≤ fuel) (ends : Ends rest) (more : skipGap rest = ',' :: r) :
    readMoreItems? (fuel + 1) depth (chars j ++ rest) =
      (readMoreItems? fuel depth (skipGap r)).map (fun p => (j :: p.1, p.2)) := by
  rw [readMoreItems?, value.read enough ends]
  simp only [Option.bind_eq_bind, Option.bind_some, more]
  cases readMoreItems? fuel depth (skipGap r) <;> rfl

theorem itemChars_cons (j : Json) (js : List Json) (r : List Char) :
    itemChars true (j :: js) ++ r = chars j ++ (itemChars false js ++ r) := by
  simp [itemChars]

/-- Items from the first one on, up to the closing bracket. -/
theorem readMoreItems?_itemChars {js : List Json} : ∀ {j : Json},
    (∀ j' ∈ j :: js, ReadsBack depth j') → ∀ (fuel : Nat) {r : List Char},
    3 * (itemChars true (j :: js)).length ≤ fuel →
    readMoreItems? (fuel + 1) depth (itemChars true (j :: js) ++ ']' :: r) =
      some (j :: js, r) := by
  induction js with
  | nil =>
    intro j values fuel r enough
    obtain ⟨value, _⟩ := List.forall_mem_cons.mp values
    have ends : Ends (']' :: r) := ends_cons (by decide) (by decide) (by decide) r
    rw [itemChars_cons, itemChars, List.nil_append]
    apply readMoreItems?_closed value _ ends (skipGap_cons (by decide) r)
    simpa [itemChars] using enough
  | cons j' js inductionHypothesis =>
    intro j values fuel r enough
    obtain ⟨value, values⟩ := List.forall_mem_cons.mp values
    have comma : itemChars false (j' :: js) ++ ']' :: r =
        ',' :: (itemChars true (j' :: js) ++ ']' :: r) := by
      simp [itemChars]
    have ends : Ends (',' :: (itemChars true (j' :: js) ++ ']' :: r)) :=
      ends_cons (by decide) (by decide) (by decide) _
    have longer : 3 * ((chars j).length + 1 + (itemChars true (j' :: js)).length) ≤ fuel := by
      simp [itemChars] at enough ⊢
      omega
    obtain ⟨fuel, rfl⟩ := Nat.exists_eq_add_of_le' (show 1 ≤ fuel by omega)
    have later := inductionHypothesis values fuel (r := r) (by omega)
    have solid : skipGap (itemChars true (j' :: js) ++ ']' :: r) =
        itemChars true (j' :: js) ++ ']' :: r := by
      rw [itemChars_cons]
      exact (values j' (List.mem_cons_self ..)).solid _
    rw [itemChars_cons, comma,
      readMoreItems?_comma value (by omega) ends (skipGap_cons (by decide) _), solid, later]
    rfl

theorem readsBack_array {items : List Json} (values : ∀ j ∈ items, ReadsBack depth j) :
    ReadsBack (depth + 1) (.array items) where
  solid _ := skipGap_cons (by decide) _
  value fuel r enough _ := by
    have opened : chars (.array items) ++ r = '[' :: (itemChars true items ++ ']' :: r) := by
      simp [chars]
    have long : 3 * (itemChars true items).length + 5 ≤ fuel := by
      simp only [chars, List.length_append, List.length_cons, List.length_nil] at enough
      omega
    obtain ⟨fuel, rfl⟩ := Nat.exists_eq_add_of_le' (show 2 ≤ fuel by omega)
    have inner : readItems? (fuel + 2) depth (skipGap (itemChars true items ++ ']' :: r)) =
        some (items, r) := by
      cases items with
      | nil => rfl
      | cons j js =>
        have first := values j (List.mem_cons_self ..)
        have solid : skipGap (itemChars true (j :: js) ++ ']' :: r) =
            itemChars true (j :: js) ++ ']' :: r := by
          rw [itemChars_cons]
          exact first.solid _
        have open' : (itemChars true (j :: js) ++ ']' :: r).head? ≠ some ']' := by
          obtain ⟨c, cs, written, other⟩ := first.opens
          simpa [itemChars_cons, written] using other
        rw [solid, readItems?, if_neg open', readMoreItems?_itemChars values fuel (by omega)]
    rw [opened]
    simp [readValue?, inner]

end TreeQuery.Json
