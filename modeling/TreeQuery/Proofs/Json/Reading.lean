import TreeQuery.Proofs.Json.Items

/-!
How much fuel a reading needs is decided by how much of the text it takes, so the fuel that it is
given does not show in what it reads. An object is therefore read alike on its own and as a value.
-/

namespace TreeQuery.Json

section Numbers

variable {negative : Bool} {s : Nat} {e : Int} {cs r : List Char}

theorem takeFitting_suffix (s : Nat) (cs : List Char) : (takeFitting s cs).2.2 <:+ cs := by
  induction cs generalizing s with
  | nil => exact List.suffix_refl _
  | cons c cs inductionHypothesis =>
    rw [takeFitting]
    split
    · exact (inductionHypothesis _).trans (List.suffix_cons ..)
    · exact List.suffix_refl _

theorem finish_suffix {x : Double} (read : readPower?.finish negative s e cs = some (x, r)) :
    r <:+ cs := by
  obtain ⟨_, _, same⟩ := Option.map_eq_some_iff.mp read
  cases same
  exact List.suffix_refl _

theorem readPower?_suffix {x : Double} (read : readPower? negative s e cs = some (x, r)) :
    r <:+ cs := by
  have digits (down : Bool) (ds : List Char)
      (read : (if (ds.takeWhile Char.isDigit).isEmpty then none
        else if exponentLimit ≤ Nat.ofDigitChars 10 (ds.takeWhile Char.isDigit) 0 then
          if s ≠ 0 ∧ !down then none else some (Double.zero negative, ds.dropWhile Char.isDigit)
        else readPower?.finish negative s
          (if down then e - Nat.ofDigitChars 10 (ds.takeWhile Char.isDigit) 0
            else e + Nat.ofDigitChars 10 (ds.takeWhile Char.isDigit) 0)
          (ds.dropWhile Char.isDigit)) = some (x, r)) : r <:+ ds := by
    split at read
    · cases read
    split at read
    · split at read
      · cases read
      · cases read
        exact List.dropWhile_suffix _
    · exact (finish_suffix read).trans (List.dropWhile_suffix _)
  unfold readPower? at read
  split at read
  rename_i down ds sign
  have signed : ds <:+ cs := by
    split at sign <;> cases sign
    · exact List.suffix_cons ..
    · exact List.suffix_cons ..
    · exact List.suffix_refl _
  exact (digits down ds read).trans signed

theorem readTail?_suffix {x : Double} (read : readTail? negative s e cs = some (x, r)) :
    r <:+ cs := by
  unfold readTail? at read
  split at read
  · split at read
    · exact (readPower?_suffix read).trans (List.suffix_cons ..)
    · exact finish_suffix read
  · exact finish_suffix read

theorem readFraction?_suffix {x : Double} (read : readFraction? negative s e cs = some (x, r)) :
    r <:+ cs := by
  unfold readFraction? at read
  split at read
  · rename_i c cs
    split at read
    · have rest := (List.dropWhile_suffix Char.isDigit).trans (takeFitting_suffix s (c :: cs))
      exact (readTail?_suffix read).trans rest
    · cases read
  · cases read

theorem readNumber?_suffix {n : Number} (read : readNumber? negative cs = some (n, r)) :
    r <:+ cs := by
  have double {x : Option (Double × List Char)} {ds : List Char}
      (inner : ∀ y r, x = some (y, r) → r <:+ ds)
      (read : x.map (fun p => (Number.double p.1, p.2)) = some (n, r)) : r <:+ ds := by
    obtain ⟨⟨y, r'⟩, found, same⟩ := Option.map_eq_some_iff.mp read
    cases same
    exact inner y _ found
  unfold readNumber? at read
  split at read
  · cases read
  split at read
  · cases read
  split at read
  · cases read
  rename_i c cs _ _
  have taken : ((takeFitting 0 (c :: cs)).2.2.dropWhile Char.isDigit) <:+ c :: cs :=
    (List.dropWhile_suffix _).trans (takeFitting_suffix 0 _)
  simp only at read
  split at read
  · rename_i rest point
    rw [point] at taken
    exact (double (fun _ _ => readFraction?_suffix) read).trans ((List.suffix_cons ..).trans taken)
  · split at read
    · cases read
      exact taken
    · exact (double (fun _ _ => readTail?_suffix) read).trans taken

end Numbers

section Strings

variable {cs r : List Char} {c : Char}

theorem readUnit?_shorter {n : Nat} (read : readUnit? cs = some (n, r)) : r.length < cs.length := by
  unfold readUnit? at read
  split at read
  · simp only [Option.bind_eq_bind, Option.bind_eq_some_iff, Option.some.injEq,
      Prod.mk.injEq] at read
    obtain ⟨_, _, _, _, _, _, _, _, _, rfl⟩ := read
    simp only [List.length_cons]
    omega
  · cases read

theorem readUnits?_shorter (read : readUnits? cs = some (c, r)) : r.length < cs.length := by
  obtain ⟨⟨high, r₁⟩, first, read⟩ := Option.bind_eq_some_iff.mp read
  have taken := readUnit?_shorter first
  simp only at read
  split at read
  · cases read
  split at read
  · split at read
    · obtain ⟨⟨low, r₂⟩, second, read⟩ := Option.bind_eq_some_iff.mp read
      have more := readUnit?_shorter second
      simp only at read
      split at read
      · obtain ⟨_, rfl⟩ := Prod.mk.inj (Option.some.inj read)
        simp only [List.length_cons] at taken
        omega
      · cases read
    · cases read
  · cases read
    exact taken

theorem readEscape?_shorter (read : readEscape? cs = some (c, r)) : r.length < cs.length := by
  cases cs with
  | nil => cases read
  | cons d cs =>
    have one {e : Char} (read : some (e, cs) = some (c, r)) : r.length < (d :: cs).length := by
      cases read
      exact Nat.lt_succ_self _
    rw [readEscape?] at read
    split at read
    · exact one read
    split at read
    · exact one read
    split at read
    · exact one read
    split at read
    · exact one read
    split at read
    · exact one read
    split at read
    · exact one read
    split at read
    · exact Nat.lt_succ_of_lt (readUnits?_shorter read)
    · cases read

/-- One step for each character is enough. -/
theorem readChars?_settled {fuel : Nat} {ds : List Char}
    (read : readChars? fuel cs = some (ds, r)) : r.length < cs.length ∧
      ∀ m, cs.length ≤ m + r.length → readChars? m cs = some (ds, r) := by
  induction fuel generalizing cs ds with
  | zero => cases read
  | succ fuel inductionHypothesis =>
    cases cs with
    | nil => cases read
    | cons c cs =>
      have later {rest ds' : List Char} (shorter : rest.length ≤ cs.length)
          (inner : readChars? fuel rest = some (ds', r)) : r.length < (c :: cs).length ∧
          ∀ m, (c :: cs).length ≤ m + 1 + r.length → readChars? m rest = some (ds', r) := by
        obtain ⟨taken, settled⟩ := inductionHypothesis inner
        rw [List.length_cons]
        exact ⟨by omega, fun m enough => settled m (by omega)⟩
      have more {m : Nat} (taken : r.length < (c :: cs).length)
          (enough : (c :: cs).length ≤ m + r.length) : ∃ m', m = m' + 1 :=
        Nat.exists_eq_add_of_le' (by omega)
      rw [readChars?] at read
      split at read
      · rename_i quote
        cases read
        refine ⟨Nat.lt_succ_self _, fun m enough => ?_⟩
        obtain ⟨m, rfl⟩ := more (Nat.lt_succ_self _) enough
        rw [readChars?, if_pos quote]
      rename_i open'
      split at read
      · rename_i escape
        obtain ⟨⟨d, rest⟩, first, read⟩ := Option.bind_eq_some_iff.mp read
        obtain ⟨⟨ds', r'⟩, inner, read⟩ := Option.bind_eq_some_iff.mp read
        cases read
        obtain ⟨taken, settled⟩ := later (Nat.le_of_lt (readEscape?_shorter first)) inner
        refine ⟨taken, fun m enough => ?_⟩
        obtain ⟨m, rfl⟩ := more taken enough
        rw [readChars?, if_neg open', if_pos escape, first]
        simp only [Option.bind_eq_bind, Option.bind_some, settled m enough]
      rename_i plain
      split at read
      · cases read
      · rename_i visible
        obtain ⟨⟨ds', r'⟩, inner, read⟩ := Option.bind_eq_some_iff.mp read
        cases read
        obtain ⟨taken, settled⟩ := later (Nat.le_refl _) inner
        refine ⟨taken, fun m enough => ?_⟩
        obtain ⟨m, rfl⟩ := more taken enough
        rw [readChars?, if_neg open', if_neg plain, if_neg visible]
        simp only [Option.bind_eq_bind, Option.bind_some, settled m enough]

theorem readString?_settled {fuel : Nat} {name : String}
    (read : readString? fuel cs = some (name, r)) : r.length < cs.length ∧
      ∀ m, cs.length ≤ m + r.length → readString? m cs = some (name, r) := by
  unfold readString? at read
  split at read
  · obtain ⟨⟨ds, r'⟩, inner, same⟩ := Option.map_eq_some_iff.mp read
    cases same
    obtain ⟨taken, settled⟩ := readChars?_settled inner
    refine ⟨Nat.lt_succ_of_lt taken, fun m enough => ?_⟩
    simp only [List.length_cons] at enough
    rw [readString?, settled m (by omega)]
    rfl
  · cases read

end Strings

def isContainer : Json → Bool
  | .array _ | .object _ => true
  | _ => false

theorem readValue?_array (fuel depth : Nat) (cs : List Char) :
    readValue? (fuel + 1) (depth + 1) ('[' :: cs) =
      (readItems? fuel depth (skipGap cs)).map (fun p => (.array p.1, p.2)) := by
  simp [readValue?]

theorem readValue?_object (fuel depth : Nat) (cs : List Char) :
    readValue? (fuel + 1) (depth + 1) ('\x7b' :: cs) =
      (readMembers? fuel depth (skipGap cs)).map (fun p => (ofMembers p.1, p.2)) := by
  simp [readValue?]

/-- How a value is read: without fuel, as a string, or as a container with one step less. -/
inductive Read (fuel : Nat) : (depth : Nat) → List Char → Json → List Char → Prop
  | leaf {depth : Nat} {cs r : List Char} {j : Json} (rest : r <:+ cs)
      (flat : j.isContainer = false)
      (again : ∀ m, readValue? (m + 1) depth cs = some (j, r)) : Read fuel depth cs j r
  | string {depth : Nat} {cs r : List Char} {s : String} (inner : readString? fuel cs = some (s, r))
      (again : ∀ m, readValue? (m + 1) depth cs =
        (readString? m cs).map (fun p => (.string p.1, p.2))) : Read fuel depth cs (.string s) r
  | array {depth : Nat} {cs r : List Char} {items : List Json}
      (inner : readItems? fuel depth (skipGap cs) = some (items, r)) :
      Read fuel (depth + 1) ('[' :: cs) (.array items) r
  | object {depth : Nat} {cs r : List Char} {members : List (String × Json)}
      (inner : readMembers? fuel depth (skipGap cs) = some (members, r)) :
      Read fuel (depth + 1) ('\x7b' :: cs) (ofMembers members) r

theorem readWord?_suffix {word cs r : List Char} {j k : Json}
    (read : readWord? word k cs = some (j, r)) : r <:+ cs ∧ j = k := by
  rw [readWord?] at read
  split at read
  · cases read
    exact ⟨List.drop_suffix .., rfl⟩
  · cases read

theorem read_of_readValue? {fuel depth : Nat} {cs r : List Char} {j : Json}
    (read : readValue? (fuel + 1) depth cs = some (j, r)) : Read fuel depth cs j r := by
  have word {w : List Char} {k : Json} (flat : k.isContainer = false)
      (again : ∀ m, readValue? (m + 1) depth cs = readWord? w k cs) : Read fuel depth cs j r := by
    rw [again] at read
    obtain ⟨rest, rfl⟩ := readWord?_suffix read
    exact .leaf rest flat (fun m => (again m).trans read)
  have number {negative : Bool} {ds : List Char} (sign : ds <:+ cs)
      (again : ∀ m, readValue? (m + 1) depth cs =
        (readNumber? negative ds).map (fun p => (.number p.1, p.2))) : Read fuel depth cs j r := by
    have whole := (again fuel).symm.trans read
    obtain ⟨⟨n, r'⟩, inner, same⟩ := Option.map_eq_some_iff.mp whole
    cases same
    exact .leaf ((readNumber?_suffix inner).trans sign) rfl (fun m => (again m).trans whole)
  cases cs with
  | nil => cases depth <;> cases read
  | cons c cs =>
    by_cases null : c = 'n'
    · subst null
      exact word rfl (fun m => by cases depth <;> rfl)
    by_cases true' : c = 't'
    · subst true'
      exact word rfl (fun m => by cases depth <;> rfl)
    by_cases false' : c = 'f'
    · subst false'
      exact word rfl (fun m => by cases depth <;> rfl)
    by_cases quote : c = '"'
    · subst quote
      have again (m : Nat) : readValue? (m + 1) depth ('"' :: cs) =
          (readString? m ('"' :: cs)).map (fun p => (.string p.1, p.2)) := by
        cases depth <;> rfl
      rw [again] at read
      obtain ⟨⟨s, r'⟩, inner, same⟩ := Option.map_eq_some_iff.mp read
      cases same
      exact .string inner again
    by_cases sign : c = '-'
    · subst sign
      exact number (List.suffix_cons ..) (fun m => by cases depth <;> rfl)
    by_cases digit : c.isDigit = true
    · exact number (List.suffix_refl _) (fun m => readValue?_digit digit m cs)
    cases depth with
    | zero => simp [readValue?, null, true', false', quote, sign, digit] at read
    | succ depth =>
      by_cases bracket : c = '['
      · subst bracket
        rw [readValue?_array] at read
        obtain ⟨⟨items, r'⟩, inner, same⟩ := Option.map_eq_some_iff.mp read
        cases same
        exact .array inner
      by_cases brace : c = '\x7b'
      · subst brace
        rw [readValue?_object] at read
        obtain ⟨⟨members, r'⟩, inner, same⟩ := Option.map_eq_some_iff.mp read
        cases same
        exact .object inner
      simp [readValue?, null, true', false', quote, sign, digit, bracket, brace] at read

theorem length_skipGap_le (cs : List Char) : (skipGap cs).length ≤ cs.length :=
  (List.dropWhile_suffix _).length_le

/-- What is read with so much fuel takes some characters and is read with any fuel that allows for
three steps on each character that it takes. -/
def Settles {α : Type} (takes spare : Nat)
    (read : Nat → Nat → List Char → Option (α × List Char)) (fuel : Nat) : Prop :=
  ∀ {depth cs x r}, read fuel depth cs = some (x, r) → r.length + takes ≤ cs.length ∧
    ∀ m, 3 * cs.length < m + spare + 3 * r.length → read m depth cs = some (x, r)

section Settles

variable {fuel : Nat}

theorem readValue?_settles (items : Settles 1 1 readItems? fuel)
    (members : Settles 1 1 readMembers? fuel) : Settles 0 0 readValue? (fuel + 1) := by
  intro depth cs j r read
  cases read_of_readValue? read with
  | leaf rest flat again =>
    refine ⟨rest.length_le, fun m enough => ?_⟩
    obtain ⟨m, rfl⟩ := Nat.exists_eq_add_of_le' (show 1 ≤ m by have := rest.length_le; omega)
    exact again m
  | string inner again =>
    obtain ⟨taken, settled⟩ := readString?_settled inner
    refine ⟨Nat.le_of_lt taken, fun m enough => ?_⟩
    obtain ⟨m, rfl⟩ := Nat.exists_eq_add_of_le' (show 1 ≤ m by omega)
    rw [again, settled m (by omega)]
    rfl
  | @array depth cs r js inner =>
    obtain ⟨taken, settled⟩ := items inner
    have gap := length_skipGap_le cs
    rw [List.length_cons]
    refine ⟨by omega, fun m enough => ?_⟩
    obtain ⟨m, rfl⟩ := Nat.exists_eq_add_of_le' (show 1 ≤ m by omega)
    rw [readValue?_array, settled m (by omega)]
    rfl
  | @object depth cs r ms inner =>
    obtain ⟨taken, settled⟩ := members inner
    have gap := length_skipGap_le cs
    rw [List.length_cons]
    refine ⟨by omega, fun m enough => ?_⟩
    obtain ⟨m, rfl⟩ := Nat.exists_eq_add_of_le' (show 1 ≤ m by omega)
    rw [readValue?_object, settled m (by omega)]
    rfl

theorem readItems?_settles (more : Settles 1 2 readMoreItems? fuel) :
    Settles 1 1 readItems? (fuel + 1) := by
  intro depth cs js r read
  rw [readItems?] at read
  split at read
  · rename_i closed
    cases read
    obtain ⟨rest, rfl⟩ := List.head?_eq_some_iff.mp closed
    refine ⟨Nat.le_refl _, fun m enough => ?_⟩
    simp only [List.length_cons, List.tail_cons] at enough
    obtain ⟨m, rfl⟩ := Nat.exists_eq_add_of_le' (show 1 ≤ m by omega)
    rw [readItems?, if_pos closed]
  · rename_i opened
    obtain ⟨taken, settled⟩ := more read
    refine ⟨taken, fun m enough => ?_⟩
    obtain ⟨m, rfl⟩ := Nat.exists_eq_add_of_le' (show 1 ≤ m by omega)
    rw [readItems?, if_neg opened]
    exact settled m (by omega)

theorem readMoreItems?_settles (value : Settles 0 0 readValue? fuel)
    (more : Settles 1 2 readMoreItems? fuel) : Settles 1 2 readMoreItems? (fuel + 1) := by
  intro depth cs js r read
  obtain ⟨⟨j, r₁⟩, first, read⟩ := Option.bind_eq_some_iff.mp read
  obtain ⟨taken, settled⟩ := value first
  have gap := length_skipGap_le r₁
  simp only at read
  split at read
  · rename_i closed
    cases read
    rw [closed, List.length_cons] at gap
    refine ⟨by omega, fun m enough => ?_⟩
    obtain ⟨m, rfl⟩ := Nat.exists_eq_add_of_le' (show 1 ≤ m by omega)
    rw [readMoreItems?, settled m (by omega)]
    simp only [Option.bind_eq_bind, Option.bind_some, closed]
  · rename_i r₂ comma
    obtain ⟨⟨js, r₃⟩, rest, read⟩ := Option.bind_eq_some_iff.mp read
    simp only [Option.some.injEq, Prod.mk.injEq] at read
    obtain ⟨rfl, rfl⟩ := read
    obtain ⟨taken', settled'⟩ := more rest
    have gap' := length_skipGap_le r₂
    rw [comma, List.length_cons] at gap
    refine ⟨by omega, fun m enough => ?_⟩
    obtain ⟨m, rfl⟩ := Nat.exists_eq_add_of_le' (show 1 ≤ m by omega)
    rw [readMoreItems?, settled m (by omega)]
    simp only [Option.bind_eq_bind, Option.bind_some, comma]
    rw [settled' m (by omega)]
    rfl
  · cases read

theorem readMembers?_settles (more : Settles 1 2 readMoreMembers? fuel) :
    Settles 1 1 readMembers? (fuel + 1) := by
  intro depth cs ms r read
  rw [readMembers?] at read
  split at read
  · rename_i closed
    cases read
    obtain ⟨rest, rfl⟩ := List.head?_eq_some_iff.mp closed
    refine ⟨Nat.le_refl _, fun m enough => ?_⟩
    simp only [List.length_cons, List.tail_cons] at enough
    obtain ⟨m, rfl⟩ := Nat.exists_eq_add_of_le' (show 1 ≤ m by omega)
    rw [readMembers?, if_pos closed]
  · rename_i opened
    obtain ⟨taken, settled⟩ := more read
    refine ⟨taken, fun m enough => ?_⟩
    obtain ⟨m, rfl⟩ := Nat.exists_eq_add_of_le' (show 1 ≤ m by omega)
    rw [readMembers?, if_neg opened]
    exact settled m (by omega)

theorem readMoreMembers?_settles (value : Settles 0 0 readValue? fuel)
    (more : Settles 1 2 readMoreMembers? fuel) : Settles 1 2 readMoreMembers? (fuel + 1) := by
  intro depth cs ms r read
  obtain ⟨⟨name, r₁⟩, key, read⟩ := Option.bind_eq_some_iff.mp read
  obtain ⟨named, settledKey⟩ := readString?_settled key
  have gap := length_skipGap_le r₁
  simp only at read
  split at read
  · rename_i r₂ colon
    obtain ⟨⟨j, r₃⟩, first, read⟩ := Option.bind_eq_some_iff.mp read
    obtain ⟨taken, settled⟩ := value first
    have gap₂ := length_skipGap_le r₂
    have gap₃ := length_skipGap_le r₃
    rw [colon, List.length_cons] at gap
    simp only at read
    split at read
    · rename_i closed
      cases read
      rw [closed, List.length_cons] at gap₃
      refine ⟨by omega, fun m enough => ?_⟩
      obtain ⟨m, rfl⟩ := Nat.exists_eq_add_of_le' (show 1 ≤ m by omega)
      rw [readMoreMembers?, settledKey m (by omega)]
      simp only [Option.bind_eq_bind, Option.bind_some, colon, settled m (by omega), closed]
    · rename_i r₄ comma
      obtain ⟨⟨ms, r₅⟩, rest, read⟩ := Option.bind_eq_some_iff.mp read
      simp only [Option.some.injEq, Prod.mk.injEq] at read
      obtain ⟨rfl, rfl⟩ := read
      obtain ⟨taken', settled'⟩ := more rest
      have gap₄ := length_skipGap_le r₄
      rw [comma, List.length_cons] at gap₃
      refine ⟨by omega, fun m enough => ?_⟩
      obtain ⟨m, rfl⟩ := Nat.exists_eq_add_of_le' (show 1 ≤ m by omega)
      rw [readMoreMembers?, settledKey m (by omega)]
      simp only [Option.bind_eq_bind, Option.bind_some, colon, settled m (by omega), comma]
      rw [settled' m (by omega)]
      rfl
    · cases read
  · cases read

theorem settles (fuel : Nat) : Settles 0 0 readValue? fuel ∧
    Settles 1 1 readItems? fuel ∧ Settles 1 2 readMoreItems? fuel ∧
    Settles 1 1 readMembers? fuel ∧ Settles 1 2 readMoreMembers? fuel := by
  induction fuel with
  | zero => refine ⟨?_, ?_, ?_, ?_, ?_⟩ <;> intro _ _ _ _ read <;> cases read
  | succ fuel inductionHypothesis =>
    obtain ⟨value, items, moreItems, members, moreMembers⟩ := inductionHypothesis
    exact ⟨readValue?_settles items members, readItems?_settles moreItems,
      readMoreItems?_settles value moreItems, readMembers?_settles moreMembers,
      readMoreMembers?_settles value moreMembers⟩

end Settles

/-- The members of an object are read with the fuel for its text and with more. -/
theorem readMembers?_fuelFor (cs : List Char) (depth extra : Nat) :
    readMembers? (fuelFor cs + extra) depth (skipGap cs) =
      readMembers? (fuelFor cs) depth (skipGap cs) := by
  have gap := length_skipGap_le cs
  have again {n m : Nat} {p : List (String × Json) × List Char}
      (read : readMembers? n depth (skipGap cs) = some p) (enough : fuelFor cs ≤ m) :
      readMembers? m depth (skipGap cs) = some p := by
    rw [fuelFor] at enough
    exact ((settles n).2.2.2.1 read).2 m (by omega)
  cases read : readMembers? (fuelFor cs) depth (skipGap cs) with
  | some p => exact again read (Nat.le_add_right ..)
  | none =>
    rw [Option.eq_none_iff_forall_ne_some]
    intro p longer
    cases read.symm.trans (again longer (Nat.le_refl _))

/-- A text is a JSON object, for the reader of values, if and only if it has members for the reader
of objects, and these make the object. -/
theorem parse?_eq_object_iff {text : String} {stored : List (String × Json)} :
    parse? text = some (.object stored) ↔
      ∃ members, parseMembers? text = some members ∧ ofMembers members = .object stored := by
  unfold parse? parseMembers?
  cases opened : skipGap text.toList with
  | nil => simp [fuelFor, readValue?]
  | cons c cs =>
    by_cases brace : c = '\x7b'
    · subst brace
      have value : readValue? (fuelFor ('\x7b' :: cs)) maxDepth ('\x7b' :: cs) =
          (readMembers? (fuelFor cs) (maxDepth - 1) (skipGap cs)).map
            (fun p => (ofMembers p.1, p.2)) := by
        have longer : fuelFor ('\x7b' :: cs) = fuelFor cs + 2 + 1 := by
          simp only [fuelFor, List.length_cons]
          omega
        rw [longer, ← readMembers?_fuelFor cs _ 2]
        exact readValue?_object _ (maxDepth - 1) cs
      simp only [value]
      cases readMembers? (fuelFor cs) (maxDepth - 1) (skipGap cs) with
      | none => simp
      | some p => simp
    · constructor
      · intro read
        obtain ⟨⟨j, r⟩, value, whole⟩ := Option.bind_eq_some_iff.mp read
        simp only [Option.ite_none_right_eq_some, Option.some.injEq] at whole
        obtain ⟨_, rfl⟩ := whole
        generalize same : Json.object stored = j at value
        cases read_of_readValue? value with
        | leaf rest flat again => subst same; cases flat
        | string inner again => cases same
        | array inner => cases same
        | object inner => exact absurd rfl brace
      · rintro ⟨members, read, _⟩
        split at read
        · rename_i same
          exact absurd (List.cons.inj same).1 brace
        · cases read

end TreeQuery.Json
