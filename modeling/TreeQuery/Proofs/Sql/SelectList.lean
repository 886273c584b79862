import TreeQuery.Proofs.Sql.Names
import TreeQuery.Proofs.Sql.Relations

/-!
The columns of a statement in its text. Between `SELECT` and `FROM` the text lists what is selected,
each with the quoted name of its column. A quoted name ends where it was written to end, so a text
of known sources tells the names of all columns.
-/

namespace TreeQuery

/-- A quoted name and what follows it are given by their text. -/
theorem Identifier.quote_append_inj {m n : String} {r s : List Char} (ends : r.head? ≠ some '"')
    (ends' : s.head? ≠ some '"') (same : (quote m).toList ++ r = (quote n).toList ++ s) :
    m = n ∧ r = s := by
  have first : read? ((quote m).toList ++ r) = some (m, r) := read?_eq_some_iff.mpr ⟨rfl, ends⟩
  have second : read? ((quote n).toList ++ s) = some (n, s) := read?_eq_some_iff.mpr ⟨rfl, ends'⟩
  rw [same, second] at first
  cases first
  exact ⟨rfl, rfl⟩

namespace Sql

open Plan (Node Table)

/-- What is selected, under a name. -/
def selectText (item : String × String) : String :=
  item.1 ++ " AS " ++ Identifier.quote item.2

/-- A text selects these sources under these names. -/
def Selects (sql : String) (items : List (String × String)) : Prop :=
  ∃ rest, sql = "SELECT\n  " ++ String.intercalate ",\n  " (items.map selectText) ++
    "\nFROM " ++ rest

section Reading

variable {items items' : List (String × String)}

theorem toList_selectText (source output : String) : (selectText (source, output)).toList =
    source.toList ++ (" AS ".toList ++ (Identifier.quote output).toList) := by
  simp [selectText]

/-- The names of a list are read one after the other: what follows a name is the comma before the
next item, or the end of the line. -/
theorem selectList_inj {r s : List Char}
    (sources : items.map Prod.fst = items'.map Prod.fst)
    (same : (String.intercalate ",\n  " (items.map selectText)).toList ++ '\n' :: r =
      (String.intercalate ",\n  " (items'.map selectText)).toList ++ '\n' :: s) :
    items = items' := by
  induction items generalizing items' with
  | nil => exact (List.map_eq_nil_iff.mp sources.symm).symm
  | cons x items inductionHypothesis =>
    obtain ⟨⟨source, output'⟩, items', rfl, rfl, later⟩ := List.map_eq_cons_iff.mp sources.symm
    obtain ⟨source, output⟩ := x
    cases items with
    | nil =>
      obtain rfl := List.map_eq_nil_iff.mp later
      simp only [List.map_cons, List.map_nil, String.intercalate_singleton, toList_selectText,
        List.append_assoc, List.append_cancel_left_eq] at same
      rw [(Identifier.quote_append_inj (by simp) (by simp) same).1]
    | cons y items =>
      obtain ⟨y', items', rfl, _⟩ := List.map_eq_cons_iff.mp later
      simp only [List.map_cons, String.intercalate_cons_cons, String.toList_append,
        toList_selectText, List.append_assoc, List.append_cancel_left_eq] at same
      obtain ⟨rfl, rest⟩ := Identifier.quote_append_inj (by simp) (by simp) same
      rw [inductionHypothesis later.symm (List.append_cancel_left rest)]

/-- What a text selects tells under which names. -/
theorem Selects.unique {sql : String} (first : Selects sql items) (second : Selects sql items')
    (sources : items.map Prod.fst = items'.map Prod.fst) : items = items' := by
  obtain ⟨r, written⟩ := first
  obtain ⟨s, written'⟩ := second
  have same := congrArg String.toList (written.symm.trans written')
  simp only [String.toList_append, List.append_assoc, List.append_cancel_left_eq] at same
  exact selectList_inj sources same

end Reading

/-- What a statement selects, as it is written, under the names of its columns. -/
def Statement.selection (fl : Flavor) (st : Statement) : List (String × String) :=
  (st.part.selected fl).map (fun i => (i.source.text fl, i.output))

theorem Statement.map_snd_selection (fl : Flavor) (st : Statement) :
    (st.selection fl).map Prod.snd = st.outputs fl := by
  rw [selection, List.map_map]
  rfl

section Emitting

variable {fl : Flavor} {t : Table} {children : List Node} {scope : Option (List Value)}

/-- A table that a statement can begin with. -/
def TableItem.isFirst : TableItem → Bool
  | .base _ _ | .scope _ _ | .page _ => true
  | .leftJoin _ _ _ _ | .lateral _ _ _ => false

/-- A text after `FROM`. -/
def IsFrom (text : String) : Prop := ∃ rest, text = "FROM " ++ rest

theorem IsFrom.append {text : String} (h : IsFrom text) (more : String) : IsFrom (text ++ more) := by
  obtain ⟨rest, rfl⟩ := h
  exact ⟨rest ++ more, String.append_assoc⟩

theorem TableItem.isFrom_text {item : TableItem} (first : item.isFirst = true) :
    IsFrom (item.text fl) := by
  have plain : IsFrom "FROM " := ⟨"", rfl⟩
  have values : IsFrom "FROM (VALUES " := ⟨"(VALUES ", rfl⟩
  have opened : IsFrom "FROM (\n" := ⟨"(\n", rfl⟩
  cases item with
  | base => exact ((plain.append _).append _).append _
  | scope => exact (((((values.append _).append _).append _).append _).append _).append _
  | page => exact opened.append _
  | leftJoin | lateral => cases first

/-- The tables of a statement begin with what it selects from. -/
theorem Reached.first {path : List String} {part : Part} (reached : Reached path t none scope part) :
    ∃ item items, part.tables = item :: items ∧ item.isFirst = true := by
  cases reached <;> exact ⟨_, _, rfl, rfl⟩

theorem Statement.selects_of_first {st : Statement} {item : TableItem} {items : List TableItem}
    (tables : st.part.tables = item :: items) (first : item.isFirst = true) :
    Selects (st.sql fl) (st.selection fl) := by
  obtain ⟨rest, text⟩ := TableItem.isFrom_text first
  have list : (st.selection fl).map selectText = (st.part.selected fl).map (SelectItem.text fl) := by
    rw [selection, List.map_map]
    rfl
  obtain ⟨more, shown⟩ : ∃ more, st.sql fl = "SELECT\n  " ++
      String.intercalate ",\n  " ((st.part.selected fl).map (SelectItem.text fl)) ++
      String.join (st.part.tables.map (fun item => "\n" ++ item.text fl)) ++ more :=
    ⟨_, String.append_assoc⟩
  have from_ : "\n" ++ ("FROM " ++ rest) = "\nFROM " ++ rest := String.append_assoc.symm
  refine ⟨rest ++ String.join (items.map (fun item => "\n" ++ item.text fl)) ++ more, ?_⟩
  rw [shown, list, tables, List.map_cons, String.join_cons, text, from_]
  simp only [String.append_assoc]

/-- The text of a statement has a select list of its items, each with the name of its column. -/
theorem Statement.selects (related : t.relationCount ≤ 1) {st : Statement}
    (stated : statement fl (.table t children) scope = .ok st) :
    Selects (st.sql fl) (st.selection fl) := by
  obtain ⟨here, below, _, ranHere, _, part⟩ := statement_table stated
  obtain ⟨own, relation, rfl, _, reached⟩ := (tablePart_reached fl [] related).returned ranHere
  obtain ⟨item, items, tables, first⟩ := reached.first
  have whole : st.part.tables = item :: (items ++ below.tables) := by
    rw [← part, ← List.cons_append, ← tables]
    rfl
  exact selects_of_first whole first

end Emitting

end Sql

end TreeQuery
