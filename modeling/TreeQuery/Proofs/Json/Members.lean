import TreeQuery.Proofs.Json.Scalars

/-!
An object is read back if the values of its members are.
-/

namespace TreeQuery.Json

/-- A value that is read back wherever it stands in a text, with room for so many containers. -/
structure ReadsBack (depth : Nat) (j : Json) : Prop where
  solid : ∀ r, skipGap (chars j ++ r) = chars j ++ r
  value : ∀ fuel r, 3 * (chars j).length ≤ fuel + 1 → Ends r →
    readValue? (fuel + 1) depth (chars j ++ r) = some (j, r)

variable {depth : Nat}

theorem skipGap_cons {c : Char} (solid : isGap c = false) (r : List Char) :
    skipGap (c :: r) = c :: r := by
  rw [skipGap, List.dropWhile_cons_of_neg (by simp [solid])]

theorem readsBack_null : ReadsBack depth .null where
  solid _ := skipGap_cons (by decide) _
  value _ _ _ _ := rfl

theorem readsBack_bool (b : Bool) : ReadsBack depth (.bool b) where
  solid _ := by cases b <;> exact skipGap_cons (by decide) _
  value _ _ _ _ := by cases b <;> rfl

theorem readsBack_string (s : String) : ReadsBack depth (.string s) where
  solid _ := skipGap_cons (by decide) _
  value fuel r enough _ := by
    have long := length_le_quoted s
    have bound : 3 * (quoted s).length ≤ fuel + 1 := enough
    have read := readString?_quoted (r := r) (s := s) (show (quoted s).length ≤ fuel by omega)
    have opened : quoted s ++ r = '"' :: (s.toList.flatMap escape ++ '"' :: r) := by
      simp [quoted]
    rw [opened] at read
    rw [chars, opened]
    cases depth <;> simp [readValue?, read]

theorem isGap_of_isDigit {c : Char} (digit : c.isDigit = true) : isGap c = false := by
  cases gap : isGap c with
  | false => rfl
  | true =>
    simp only [isGap, Bool.or_eq_true, decide_eq_true_eq] at gap
    rcases gap with ((rfl | rfl) | rfl) | rfl <;> exact absurd digit (by decide)

theorem readValue?_digit {c : Char} (digit : c.isDigit = true) (fuel : Nat) (r : List Char) :
    readValue? (fuel + 1) depth (c :: r) =
      (readNumber? false (c :: r)).map (fun p => (.number p.1, p.2)) := by
  have other {d : Char} (letter : d.isDigit = false) : c ≠ d := by
    rintro rfl
    rw [digit] at letter
    cases letter
  cases depth <;>
    rw [readValue?, if_neg (other (by decide)), if_neg (other (by decide)),
      if_neg (other (by decide)), if_neg (other (by decide)), if_neg (other (by decide)),
      if_pos digit]

theorem readsBack_natural (n : UInt64) : ReadsBack depth (.number (.natural n)) := by
  obtain ⟨c, ds, written⟩ :=
    List.exists_cons_of_ne_nil (Nat.toDigits_ne_nil (n := n.toNat) (b := 10))
  have digit : c.isDigit = true := by
    refine Nat.isDigit_of_mem_toDigits (n := n.toNat) (b := 10) (by decide) (by decide) ?_
    rw [written]
    exact List.mem_cons_self ..
  have text : chars (.number (.natural n)) = c :: ds := (chars_natural n).trans written
  constructor
  · intro r
    rw [text]
    exact skipGap_cons (isGap_of_isDigit digit) _
  · intro fuel r _ ends
    have read := readNumber?_natural n ends
    rw [text, List.cons_append] at read ⊢
    rw [readValue?_digit digit, read]
    rfl

theorem readsBack_negative {i : Int64} (negative : i.toInt < 0) :
    ReadsBack depth (.number (.negative i)) := by
  have text := chars_negative negative
  constructor
  · intro r
    rw [text]
    exact skipGap_cons (by decide) _
  · intro fuel r _ ends
    rw [text, List.cons_append]
    cases depth <;> simp [readValue?, readNumber?_negative negative ends]

theorem readsBack_integer (i : Int64) : ReadsBack depth (.number (.ofInt64 i)) := by
  unfold Number.ofInt64
  split
  · rename_i negative
    exact readsBack_negative negative
  · exact readsBack_natural _

theorem ends_cons {c : Char} (digit : c.isDigit = false) (point : c ≠ '.')
    (exponent : isExponentLetter c = false) (r : List Char) : Ends (c :: r) := by
  intro d hd
  obtain rfl := Option.some.inj hd
  exact ⟨digit, point, exponent⟩

variable {name : String} {j : Json}

/-- A member is read up to what follows it. -/
theorem read_member (value : ReadsBack depth j) {fuel : Nat} {rest : List Char}
    (enough : 3 * (quoted name ++ ':' :: chars j).length ≤ fuel) (ends : Ends rest) :
    readString? fuel (quoted name ++ ':' :: (chars j ++ rest)) =
      some (name, ':' :: (chars j ++ rest)) ∧
    readValue? fuel depth (chars j ++ rest) = some (j, rest) := by
  rw [List.length_append, List.length_cons] at enough
  have key := readString?_quoted (r := ':' :: (chars j ++ rest))
    (show (quoted name).length ≤ fuel by omega)
  obtain ⟨fuel, rfl⟩ := Nat.exists_eq_add_of_le' (show 1 ≤ fuel by omega)
  exact ⟨key, value.value fuel rest (by omega) ends⟩

theorem readMoreMembers?_closed (value : ReadsBack depth j) {fuel : Nat} {rest r : List Char}
    (enough : 3 * (quoted name ++ ':' :: chars j).length ≤ fuel) (ends : Ends rest)
    (closed : skipGap rest = '\x7d' :: r) :
    readMoreMembers? (fuel + 1) depth (quoted name ++ ':' :: (chars j ++ rest)) =
      some ([(name, j)], r) := by
  obtain ⟨key, read⟩ := read_member value enough ends
  have colon : skipGap (':' :: (chars j ++ rest)) = ':' :: (chars j ++ rest) :=
    skipGap_cons (by decide) _
  rw [readMoreMembers?, key]
  simp only [Option.bind_eq_bind, Option.bind_some, colon, value.solid, read, closed]

theorem readMoreMembers?_comma (value : ReadsBack depth j) {fuel : Nat} {rest r : List Char}
    (enough : 3 * (quoted name ++ ':' :: chars j).length ≤ fuel) (ends : Ends rest)
    (more : skipGap rest = ',' :: r) :
    readMoreMembers? (fuel + 1) depth (quoted name ++ ':' :: (chars j ++ rest)) =
      (readMoreMembers? fuel depth (skipGap r)).map (fun p => ((name, j) :: p.1, p.2)) := by
  obtain ⟨key, read⟩ := read_member value enough ends
  have colon : skipGap (':' :: (chars j ++ rest)) = ':' :: (chars j ++ rest) :=
    skipGap_cons (by decide) _
  rw [readMoreMembers?, key]
  simp only [Option.bind_eq_bind, Option.bind_some, colon, value.solid, read, more]
  cases readMoreMembers? fuel depth (skipGap r) <;> rfl

theorem memberChars_cons (m : String × Json) (ms : List (String × Json)) (r : List Char) :
    memberChars true (m :: ms) ++ r =
      quoted m.1 ++ ':' :: (chars m.2 ++ (memberChars false ms ++ r)) := by
  simp [memberChars]

/-- Members from the first one on, up to the closing brace. -/
theorem readMoreMembers?_memberChars {ms : List (String × Json)} : ∀ {m : String × Json},
    (∀ m' ∈ m :: ms, ReadsBack depth m'.2) → ∀ (fuel : Nat) {r : List Char},
    3 * (memberChars true (m :: ms)).length ≤ fuel →
    readMoreMembers? (fuel + 1) depth (memberChars true (m :: ms) ++ '\x7d' :: r) =
      some (m :: ms, r) := by
  induction ms with
  | nil =>
    intro m values fuel r enough
    obtain ⟨value, _⟩ := List.forall_mem_cons.mp values
    have ends : Ends ('\x7d' :: r) := ends_cons (by decide) (by decide) (by decide) r
    rw [memberChars_cons, memberChars, List.nil_append]
    apply readMoreMembers?_closed value _ ends (skipGap_cons (by decide) r)
    simp [memberChars] at enough ⊢
    omega
  | cons m' ms inductionHypothesis =>
    intro m values fuel r enough
    obtain ⟨value, values⟩ := List.forall_mem_cons.mp values
    have comma : memberChars false (m' :: ms) ++ '\x7d' :: r =
        ',' :: (memberChars true (m' :: ms) ++ '\x7d' :: r) := by
      simp [memberChars]
    have ends : Ends (',' :: (memberChars true (m' :: ms) ++ '\x7d' :: r)) :=
      ends_cons (by decide) (by decide) (by decide) _
    have here : 3 * (quoted m.1 ++ ':' :: chars m.2).length ≤ fuel := by
      simp [memberChars] at enough ⊢
      omega
    obtain ⟨fuel, rfl⟩ := Nat.exists_eq_add_of_le' (show 1 ≤ fuel by simp at here; omega)
    have later := inductionHypothesis values fuel (r := r)
      (by simp [memberChars] at enough ⊢; omega)
    have solid : skipGap (memberChars true (m' :: ms) ++ '\x7d' :: r) =
        memberChars true (m' :: ms) ++ '\x7d' :: r := by
      rw [memberChars_cons]
      exact skipGap_cons (by decide) _
    rw [memberChars_cons, comma,
      readMoreMembers?_comma value here ends (skipGap_cons (by decide) _), solid, later]
    rfl

/-- A written object is read as the members that it was written from. -/
theorem parseMembers?_text {ms : List (String × Json)}
    (values : ∀ m ∈ ms, ReadsBack (maxDepth - 1) m.2) :
    parseMembers? (text (.object ms)) = some ms := by
  have opened : (text (.object ms)).toList = '\x7b' :: (memberChars true ms ++ ['\x7d']) := by
    simp [text, chars]
  have start : skipGap ('\x7b' :: (memberChars true ms ++ ['\x7d'])) =
      '\x7b' :: (memberChars true ms ++ ['\x7d']) := skipGap_cons (by decide) _
  rw [parseMembers?, opened, start]
  simp only
  cases ms with
  | nil => rfl
  | cons m ms =>
    have solid : skipGap (memberChars true (m :: ms) ++ ['\x7d']) =
        memberChars true (m :: ms) ++ ['\x7d'] := by
      rw [memberChars_cons]
      exact skipGap_cons (by decide) _
    have read := readMoreMembers?_memberChars values
      (3 * (memberChars true (m :: ms) ++ ['\x7d']).length + 1) (r := []) (by simp; omega)
    have first : (memberChars true (m :: ms) ++ ['\x7d']).head? ≠ some '\x7d' := by
      rw [memberChars_cons]
      simp [quoted]
    rw [solid, fuelFor, readMembers?, if_neg first, read]
    rfl

end TreeQuery.Json
