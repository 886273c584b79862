import Mathlib.Data.List.Basic
import TreeQuery.Sql.Token

/-!
Names in SQL. A quoted name is read back from whatever text it stands at the front of, so a name
ends where it was written to end, and the name of a table is made of one quoted name for each part
that its dots divide.
-/

namespace TreeQuery

namespace Identifier

/-- Reads the rest of a quoted name, up to the first quote that no other one follows, and gives what
comes after. -/
def readBody? : List Char → Option (List Char × List Char)
  | [] => none
  | '"' :: '"' :: cs => (readBody? cs).map (fun r => ('"' :: r.1, r.2))
  | '"' :: cs => some ([], cs)
  | c :: cs => (readBody? cs).map (fun r => (c :: r.1, r.2))

/-- Reads a quoted name at the front of a text. -/
def read? : List Char → Option (String × List Char)
  | '"' :: cs => (readBody? cs).map (fun r => (String.ofList r.1, r.2))
  | _ => none

theorem escape_eq_flatMap (cs : List Char) :
    escape cs = cs.flatMap (fun c => if c = '"' then ['"', '"'] else [c]) := by
  induction cs with
  | nil => rfl
  | cons c cs inductionHypothesis =>
    rw [List.flatMap_cons, ← inductionHypothesis, escape]
    split <;> rfl

/-- What closes the quotation is the quote after the escaped name, as long as no other quote
follows. -/
theorem readBody?_escape (name rest : List Char) (ends : rest.head? ≠ some '"') :
    readBody? (escape name ++ '"' :: rest) = some (name, rest) := by
  induction name with
  | nil =>
    cases rest with
    | nil => rfl
    | cons c rest =>
      have other : c ≠ '"' := fun same => ends (congrArg some same)
      rw [escape, List.nil_append, readBody?]
      simpa using other
  | cons c name inductionHypothesis =>
    rw [escape]
    split
    · rename_i quote
      rw [quote, List.cons_append, List.cons_append, readBody?, inductionHypothesis]
      rfl
    · rename_i plain
      rw [List.cons_append, readBody?, inductionHypothesis]
      · rfl
      · intro _ quote
        exact absurd quote plain
      · exact plain

theorem readBody?_eq_some_iff {cs name rest : List Char} : readBody? cs = some (name, rest) ↔
    cs = escape name ++ '"' :: rest ∧ rest.head? ≠ some '"' := by
  refine ⟨fun read => ?_, by rintro ⟨rfl, ends⟩; exact readBody?_escape name rest ends⟩
  induction cs using readBody?.induct generalizing name rest with
  | case1 => cases read
  | case2 cs inductionHypothesis =>
    obtain ⟨⟨front, back⟩, later, same⟩ := Option.map_eq_some_iff.mp read
    cases same
    obtain ⟨rfl, ends⟩ := inductionHypothesis later
    exact ⟨rfl, ends⟩
  | case3 cs alone =>
    rw [readBody?] at read
    · cases read
      refine ⟨rfl, ?_⟩
      intro quote
      obtain ⟨r, again⟩ := List.head?_eq_some_iff.mp quote
      exact alone r again
    · exact alone
  | case4 c cs more plain inductionHypothesis =>
    rw [readBody?] at read
    · obtain ⟨⟨front, back⟩, later, same⟩ := Option.map_eq_some_iff.mp read
      cases same
      obtain ⟨rfl, ends⟩ := inductionHypothesis later
      rw [escape, if_neg plain]
      exact ⟨rfl, ends⟩
    · exact more
    · exact plain

/-- A text begins with a quoted name if it is the name between quotes, with each quote in it written
twice, and what follows does not go on with a quote. -/
theorem read?_eq_some_iff {text rest : List Char} {name : String} :
    read? text = some (name, rest) ↔
      text = (quote name).toList ++ rest ∧ rest.head? ≠ some '"' := by
  have opened : (quote name).toList ++ rest = '"' :: (escape name.toList ++ '"' :: rest) := by
    rw [quote, String.toList_ofList]
    simp
  rw [opened]
  unfold read?
  split
  · rename_i cs
    rw [List.cons.injEq, and_iff_right rfl, ← readBody?_eq_some_iff, Option.map_eq_some_iff]
    constructor
    · rintro ⟨⟨front, back⟩, body, same⟩
      cases same
      rwa [String.toList_ofList]
    · intro body
      exact ⟨_, body, by rw [String.ofList_toList]⟩
  · rename_i unquoted
    simp only [reduceCtorEq, false_iff, not_and]
    rintro rfl
    exact absurd rfl (unquoted _)

end Identifier

namespace Segments

theorem intercalate_split (cs : List Char) : ['.'].intercalate (split cs) = cs := by
  induction cs with
  | nil => rfl
  | cons c cs inductionHypothesis =>
    obtain ⟨s, ss, divided⟩ := List.exists_cons_of_ne_nil (split_ne_nil cs)
    rw [divided] at inductionHypothesis
    rw [split, divided]
    split
    · rename_i dot
      rw [List.intercalate_cons_cons, inductionHypothesis, dot]
      rfl
    · cases ss with
      | nil => rw [List.intercalate_singleton] at inductionHypothesis ⊢; rw [inductionHypothesis]
      | cons r rs =>
        rw [List.intercalate_cons_cons] at inductionHypothesis ⊢
        rw [← inductionHypothesis]
        rfl

theorem notMem_of_mem_split {cs s : List Char} (among : s ∈ split cs) : '.' ∉ s := by
  induction cs generalizing s with
  | nil =>
    rw [split, List.mem_singleton] at among
    rw [among]
    exact List.not_mem_nil
  | cons c cs inductionHypothesis =>
    obtain ⟨first, ss, divided⟩ := List.exists_cons_of_ne_nil (split_ne_nil cs)
    rw [divided] at inductionHypothesis
    rw [split, divided] at among
    split at among
    · rcases List.mem_cons.mp among with rfl | later
      · exact List.not_mem_nil
      · exact inductionHypothesis later
    · rename_i plain
      rcases List.mem_cons.mp among with rfl | later
      · rw [List.mem_cons, not_or]
        exact ⟨Ne.symm plain, inductionHypothesis (List.mem_cons_self ..)⟩
      · exact inductionHypothesis (List.mem_cons_of_mem _ later)

theorem split_of_notMem {s : List Char} (undivided : '.' ∉ s) : split s = [s] := by
  induction s with
  | nil => rfl
  | cons c s inductionHypothesis =>
    rw [List.mem_cons, not_or] at undivided
    rw [split, if_neg (Ne.symm undivided.1), inductionHypothesis undivided.2]

theorem split_append {s : List Char} (undivided : '.' ∉ s) (cs : List Char) :
    split (s ++ '.' :: cs) = s :: split cs := by
  induction s with
  | nil => rfl
  | cons c s inductionHypothesis =>
    rw [List.mem_cons, not_or] at undivided
    rw [List.cons_append, split, if_neg (Ne.symm undivided.1), inductionHypothesis undivided.2]

theorem split_intercalate {ss : List (List Char)} (some : ss ≠ []) (undivided : ∀ s ∈ ss, '.' ∉ s) :
    split (['.'].intercalate ss) = ss := by
  induction ss with
  | nil => exact absurd rfl some
  | cons s ss inductionHypothesis =>
    obtain ⟨first, undivided⟩ := List.forall_mem_cons.mp undivided
    cases ss with
    | nil => rw [List.intercalate_singleton, split_of_notMem first]
    | cons r rs =>
      rw [List.intercalate_cons_cons, List.append_assoc, List.singleton_append, split_append first,
        inductionHypothesis (List.cons_ne_nil r rs) undivided]

/-- The parts of a name between its dots. -/
structure Divides (name : String) (parts : List String) : Prop where
  some : parts ≠ []
  undivided : ∀ p ∈ parts, '.' ∉ p.toList
  joined : String.intercalate "." parts = name

theorem divides_iff {name : String} {parts : List String} :
    Divides name parts ↔ parts = ofName name := by
  have texts (parts : List String) : (String.intercalate "." parts).toList =
      ['.'].intercalate (parts.map String.toList) := String.toList_intercalate
  constructor
  · rintro ⟨some, undivided, rfl⟩
    rw [ofName, texts, split_intercalate (by simpa using some) (by simpa using undivided)]
    simp
  · rintro rfl
    refine ⟨by simpa [ofName] using split_ne_nil _, ?_, ?_⟩
    · intro p part
      obtain ⟨s, among, rfl⟩ := List.mem_map.mp part
      rw [String.toList_ofList]
      exact notMem_of_mem_split among
    · apply String.toList_inj.mp
      rw [texts, ofName, List.map_map]
      simp [intercalate_split]

end Segments

namespace Sql

/-- A name that is quoted, by either of two ways that write the same text, is read back from any
text that goes on without a quote, and only such texts are read as the name. A table is named by the
quoted parts of its name with dots between them. -/
theorem names_stay_quoted (name : String) :
    (∀ text rest, Identifier.read? text = some (name, rest) ↔
      text = (Identifier.quote name).toList ++ rest ∧ rest.head? ≠ some '"') ∧
    (∀ fl : Flavor, fl.quote name = Identifier.quote name) ∧
    ∃ parts, (∀ others, Segments.Divides name others ↔ others = parts) ∧
      tableText (.ident name) = String.intercalate "." (parts.map Identifier.quote) := by
  refine ⟨fun _ _ => Identifier.read?_eq_some_iff, fun fl => ?_, Segments.ofName name,
    fun _ => Segments.divides_iff, rfl⟩
  apply String.toList_inj.mp
  rw [Flavor.quote, Identifier.doubled, ← Identifier.escape_eq_flatMap, Identifier.quote]
  simp

end Sql

end TreeQuery
