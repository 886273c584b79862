import TreeQuery.Sql.OfPlan

/-!
How the labels on the way to a column are spelled as one name. The spelling tells the labels apart
if the separator is found in none of them. In general it does not: two columns that are reached
in different ways have one name exactly where a label reads like the continuation of another.
-/

namespace TreeQuery.Sql

/-- The name of a column below some nested tables. -/
def nestedName : List String → String → String
  | [], a => a
  | l :: p, a => l ++ "__" ++ nestedName p a

theorem outputPath_append (path : List String) (a : String) :
    outputPath path ++ a = nestedName path.tail a := by
  rw [outputPath]
  generalize path.tail = p
  induction p with
  | nil => exact String.empty_append
  | cons l p inductionHypothesis =>
    rw [nestedName, ← inductionHypothesis, List.map_cons, String.join_cons, String.append_assoc]

theorem toList_nestedName_cons (l : String) (p : List String) (a : String) :
    (nestedName (l :: p) a).toList = l.toList ++ '_' :: '_' :: (nestedName p a).toList := by
  simp [nestedName]

/-- The separator of nested labels. -/
def separator : List Char := ['_', '_']

/-- Where the column `a` below `p` and the column `b` below `q` part, the way to the latter has a
label that continues like the rest of the former. -/
inductive SpelledAlike : List String → String → List String → String → Prop
  /-- The column itself has the whole spelling as its label. -/
  | column {m b : String} {q : List String} : SpelledAlike [] (nestedName (m :: q) b) (m :: q) b
  /-- One label ends in half a separator, and what follows the other starts with one. -/
  | underscore {l a b : String} {p q : List String} (same : nestedName p a = "_" ++ nestedName q b) :
      SpelledAlike (l :: p) a ((l ++ "_") :: q) b
  /-- One label has a separator in it. -/
  | longer {l v a b : String} {p q : List String}
      (same : nestedName p a = v ++ "__" ++ nestedName q b) :
      SpelledAlike (l :: p) a ((l ++ "__" ++ v) :: q) b
  | deeper {l a b : String} {p q : List String} (later : SpelledAlike p a q b) :
      SpelledAlike (l :: p) a (l :: q) b

theorem SpelledAlike.same {p q : List String} {a b : String} (h : SpelledAlike p a q b) :
    nestedName p a = nestedName q b := by
  induction h with
  | column => rfl
  | underscore same => simp [nestedName, same, String.ext_iff]
  | longer same => simp [nestedName, same, String.append_assoc]
  | deeper _ inductionHypothesis => rw [nestedName, nestedName, inductionHypothesis]

/-- A label that stands before another on the way to the same name. -/
theorem spelledAlike_of_longer {l m a b : String} {p q : List String} {c : Char} {r : List Char}
    (label : m.toList = l.toList ++ c :: r)
    (rest : '_' :: '_' :: (nestedName p a).toList =
      c :: r ++ '_' :: '_' :: (nestedName q b).toList) :
    SpelledAlike (l :: p) a (m :: q) b := by
  rw [List.cons_append] at rest
  obtain ⟨rfl, tail⟩ := List.cons.inj rest
  cases r with
  | nil =>
    have ended : m = l ++ "_" := by simp [String.ext_iff, label]
    have same : nestedName p a = "_" ++ nestedName q b := by
      simpa [String.ext_iff] using tail
    rw [ended]
    exact .underscore same
  | cons d v =>
    rw [List.cons_append] at tail
    obtain ⟨rfl, after⟩ := List.cons.inj tail
    have ended : m = l ++ "__" ++ String.ofList v := by simp [String.ext_iff, label]
    have same : nestedName p a = String.ofList v ++ "__" ++ nestedName q b := by
      simpa [String.ext_iff] using after
    rw [ended]
    exact .longer same

/-- Two ways to a column are spelled as one name only if one of them reads like the other. -/
theorem nestedName_eq_iff {p q : List String} {a b : String} (apart : p ≠ q) :
    nestedName p a = nestedName q b ↔ SpelledAlike p a q b ∨ SpelledAlike q b p a := by
  refine ⟨fun same => ?_, fun alike => alike.elim SpelledAlike.same (fun h => h.same.symm)⟩
  induction p generalizing q with
  | nil =>
    obtain ⟨m, q, rfl⟩ := List.exists_cons_of_ne_nil apart.symm
    rw [nestedName] at same
    rw [same]
    exact .inl .column
  | cons l p inductionHypothesis =>
    cases q with
    | nil =>
      rw [nestedName.eq_1 b] at same
      rw [← same]
      exact .inr .column
    | cons m q =>
      have spelled := congrArg String.toList same
      rw [toList_nestedName_cons, toList_nestedName_cons] at spelled
      rcases List.append_eq_append_iff.mp spelled with ⟨r, label, rest⟩ | ⟨r, label, rest⟩
      · cases r with
        | nil =>
          obtain rfl : l = m := by simpa [String.ext_iff] using label.symm
          have later : nestedName p a = nestedName q b := by simpa [String.ext_iff] using rest
          exact (inductionHypothesis (fun h => apart (by rw [h])) later).imp .deeper .deeper
        | cons c r => exact .inl (spelledAlike_of_longer label rest)
      · cases r with
        | nil =>
          obtain rfl : l = m := by simpa [String.ext_iff] using label
          have later : nestedName p a = nestedName q b := by simpa [String.ext_iff] using rest.symm
          exact (inductionHypothesis (fun h => apart (by rw [h])) later).imp .deeper .deeper
        | cons c r => exact .inr (spelledAlike_of_longer label rest)

/-- Labels without a separator in them are told apart, if those of tables do not end in half a
separator either. -/
theorem SpelledAlike.not_of_separated {p q : List String} {a b : String}
    (tables : ∀ l ∈ q, ¬ separator <:+: (l ++ "_").toList) (column : ¬ separator <:+: a.toList) :
    ¬ SpelledAlike p a q b := by
  intro h
  induction h with
  | @column m b q =>
    refine column ⟨m.toList, (nestedName q b).toList, ?_⟩
    rw [toList_nestedName_cons]
    simp [separator]
  | @underscore l =>
    refine tables _ (List.mem_cons_self ..) ⟨l.toList, [], ?_⟩
    simp [separator]
  | @longer l v =>
    refine tables _ (List.mem_cons_self ..) ⟨l.toList, v.toList ++ ['_'], ?_⟩
    simp [separator]
  | deeper _ inductionHypothesis =>
    exact inductionHypothesis (fun l hl => tables l (List.mem_cons_of_mem _ hl)) column

end TreeQuery.Sql
