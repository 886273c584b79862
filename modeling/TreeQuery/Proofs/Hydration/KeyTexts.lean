import TreeQuery.Proofs.Hydration.Links
import TreeQuery.Proofs.Hydration.Singles
import TreeQuery.Proofs.Sql.KeyTexts

/-!
Which rows a composite key keeps apart. Its value is the texts of its columns one right after the
other, so that rows are one object whose texts read alike once they are put together, and a row
without any text has none.
-/

namespace TreeQuery

open Plan (Node Table)
open Sql (Flavor Record TextExpr nullIfEmpty)

namespace Plan

variable {Ctx : Type} {s : Schema Ctx} {cx : Ctx}

/-- The table is that of a type with this unique key. -/
def Table.HasKey (s : Schema Ctx) (cx : Ctx) (t : Table) (key : List String) : Prop :=
  ∃ type ∈ s.types, ∃ config, type.table = some config ∧
    t.name = config.source.resolve t.arguments cx ∧ config.uniqueKey = key

theorem planTable_name {field : Field Ctx} {config : TableConfig Ctx} {many : Bool} {key : String}
    {args : Arguments} {l : Location} {t : Table} {ns ns' : Namespace}
    (h : (planTable cx field config many key args l).run ns = .ok (t, ns')) :
    t.name = config.source.resolve t.arguments cx := by
  obtain ⟨label, _, _, h⟩ := run_bind_ok.mp h
  obtain ⟨batch, _, _, h⟩ := run_bind_ok.mp h
  obtain ⟨junction, _, _, h⟩ := run_bind_ok.mp h
  obtain ⟨rfl, _⟩ := run_pure_ok.mp h
  rfl

/-- A key of more than one column is planned as a single node. -/
theorem identityNode_composite {typeName : String} {config : TableConfig Ctx} {t : Table} {n : Node}
    {ns ns' : Namespace} (h : (identityNode cx typeName config t).run ns = .ok (n, ns'))
    (several : 2 ≤ config.uniqueKey.length) :
    ∃ label, n = .composite ⟨config.uniqueKey, label, t.location⟩ := by
  unfold identityNode at h
  split at h
  · exact (run_throw_ok.mp h).elim
  · rename_i c single
    rw [single] at several
    exact absurd several (by simp)
  · obtain ⟨label, _, _, h⟩ := run_bind_ok.mp h
    obtain ⟨rfl, _⟩ := run_pure_ok.mp h
    exact ⟨label, rfl⟩

/-- A planned table has the unique key of a type, and starts with it if it has several columns. -/
theorem Table.Declared.key {t : Table} {nodes : List Node} (h : t.Declared s cx nodes) :
    ∃ key, t.HasKey s cx key ∧ (2 ≤ key.length →
      ∃ label, nodes.head? = some (.composite ⟨key, label, t.location⟩)) := by
  cases h with
  | @intro _ type _ _ config _ _ _ _ _ _ _ _ _ _ known planned =>
    obtain ⟨_, table⟩ := planned.table
    refine ⟨_, ⟨type, known, config, planned.configured, planTable_name table, rfl⟩,
      fun several => ?_⟩
    obtain ⟨identity, _, first, head⟩ := run_bind_ok.mp planned.head
    obtain ⟨always, _, _, head⟩ := run_bind_ok.mp head
    obtain ⟨paging, _, _, head⟩ := run_bind_ok.mp head
    obtain ⟨rfl, _⟩ := run_pure_ok.mp head
    obtain ⟨label, rfl⟩ := identityNode_composite first several
    exact ⟨label, rfl⟩

theorem uniqueLabel?_composite {nodes : List Node} {c : Composite}
    (first : nodes.head? = some (.composite c)) : Node.uniqueLabel? nodes = some c.label := by
  obtain ⟨rest, rfl⟩ := List.head?_eq_some_iff.mp first
  rfl

end Plan

theorem length_distinct_iff {α : Type} [DecidableEq α] {l : List α} :
    (distinct l).length = l.length ↔ l.Nodup := by
  refine ⟨fun same => ?_, fun nodup => by rw [distinct_of_nodup nodup]⟩
  have part : distinct l ⊆ l := fun a member => mem_distinct.mp member
  have perm := (List.Nodup.subperm (nodup_distinct l) part).perm_of_length_le (Nat.le_of_eq same.symm)
  exact perm.nodup_iff.mp (nodup_distinct l)

namespace Hydration

variable {s : Shape} {rows : List Row}

/-- There is an object for each row if and only if each found a match, with an identity that no
other row has. -/
theorem length_values_iff : (values s rows).length = rows.length ↔
    (rows.map (keyOf s.identity)).Nodup ∧ ∀ r ∈ rows, isMatched (keyOf s.identity r) := by
  rw [length_values]
  constructor
  · intro same
    have kept : matchedKeys s.identity rows = rows.map (keyOf s.identity) := by
      refine List.filter_sublist.eq_of_length_le ?_
      rw [List.length_map, ← same]
      exact (List.Nodup.subperm (nodup_distinct _) (fun k member => mem_distinct.mp member)).length_le
    rw [kept, ← List.length_map (f := keyOf s.identity), length_distinct_iff] at same
    refine ⟨same, fun r member => ?_⟩
    have among : keyOf s.identity r ∈ matchedKeys s.identity rows :=
      kept ▸ List.mem_map_of_mem member
    exact (List.mem_filter.mp among).2
  · rintro ⟨nodup, matched⟩
    have kept : matchedKeys s.identity rows = rows.map (keyOf s.identity) :=
      List.filter_eq_self.mpr (List.forall_mem_map.mpr matched)
    rw [kept, distinct_of_nodup nodup, List.length_map]

end Hydration

section Texts

theorem join_eq_empty_iff (l : List String) : String.join l = "" ↔ ∀ s ∈ l, s = "" := by
  induction l with
  | nil => simp
  | cons s l inductionHypothesis =>
    rw [String.join_cons, List.forall_mem_cons, ← inductionHypothesis, ← String.toList_inj,
      String.toList_append, String.toList_empty, List.append_eq_nil_iff, ← String.toList_inj,
      ← String.toList_inj, String.toList_empty]

/-- Texts can be told from their concatenation if their lengths are known. -/
theorem join_eq_iff {l m : List String} (lengths : l.map String.length = m.map String.length) :
    String.join l = String.join m ↔ l = m := by
  refine ⟨fun same => ?_, congrArg String.join⟩
  induction l generalizing m with
  | nil => exact (List.map_eq_nil_iff.mp lengths.symm).symm
  | cons s l inductionHypothesis =>
    obtain _ | ⟨s', m⟩ := m
    · cases lengths
    obtain ⟨first, others⟩ := List.cons_eq_cons.mp lengths
    rw [String.join_cons, String.join_cons, ← String.toList_inj, String.toList_append,
      String.toList_append] at same
    obtain ⟨own, later⟩ := List.append_inj same (by rwa [String.length_toList, String.length_toList])
    rw [String.toList_inj.mp own, inductionHypothesis others (String.toList_inj.mp later)]

theorem nullIfEmpty_inj {s s' : String} : nullIfEmpty s = nullIfEmpty s' ↔ s = s' := by
  by_cases empty : s = "" <;> by_cases empty' : s' = ""
  · simp [nullIfEmpty, empty, empty']
  · simp [nullIfEmpty, empty, empty', Ne.symm empty']
  · simp [nullIfEmpty, empty, empty']
  · simp [nullIfEmpty, empty, empty']

theorem nullIfEmpty_eq_none_iff {s : String} : nullIfEmpty s = none ↔ s = "" := by
  simp [nullIfEmpty]

end Texts

/-- A text or null, as a cell holds it. -/
def Value.ofText? : Option String → Value
  | some s => .text s
  | none => .null

theorem Value.key?_ofText? (s : Option String) : (Value.ofText? s).key? = s.map Key.text := by
  cases s <;> rfl

namespace Sql

variable {ρ τ : Record} {t : String} {columns : List String}

theorem Record.keyTexts_eq_iff (texts : ρ.HasTexts t columns) (texts' : τ.HasTexts t columns) :
    ρ.keyTexts t columns = τ.keyTexts t columns ↔
      ∀ c ∈ columns, ρ (qualified t c) = τ (qualified t c) := by
  rw [Record.keyTexts, Record.keyTexts, List.map_inj_left]
  refine forall₂_congr (fun c member => ?_)
  obtain ⟨s, cell⟩ := texts c member
  obtain ⟨s', cell'⟩ := texts' c member
  simp [cell, cell', Value.text?]

/-- What an expression over the columns of a key tells of the rows that have texts there. -/
structure TextExpr.TellsTexts (e : TextExpr) (t : String) (columns : List String) : Prop where
  /-- It is null where all texts are empty. -/
  null_iff : ∀ ρ : Record, ρ.HasTexts t columns →
    (e.eval ρ = none ↔ ∀ s ∈ ρ.keyTexts t columns, s = "")
  /-- It is the same for texts that read alike once they are put together. -/
  same_iff : ∀ ρ τ : Record, ρ.HasTexts t columns → τ.HasTexts t columns →
    (e.eval ρ = e.eval τ ↔
      String.join (ρ.keyTexts t columns) = String.join (τ.keyTexts t columns))
  /-- So it tells rows apart whose texts are of the same lengths, column by column. -/
  agree_iff : ∀ ρ τ : Record, ρ.HasTexts t columns → τ.HasTexts t columns →
    (ρ.keyTexts t columns).map String.length = (τ.keyTexts t columns).map String.length →
    (e.eval ρ = e.eval τ ↔ ∀ c ∈ columns, ρ (qualified t c) = τ (qualified t c))

theorem TextExpr.tellsTexts_ofKey (fl : Flavor) (t c : String) (cs : List String) :
    (TextExpr.ofKey fl t c cs).TellsTexts t (c :: cs) where
  null_iff ρ texts := by
    rw [eval_ofKey fl texts, nullIfEmpty_eq_none_iff, join_eq_empty_iff]
  same_iff ρ τ texts texts' := by
    rw [eval_ofKey fl texts, eval_ofKey fl texts', nullIfEmpty_inj]
  agree_iff ρ τ texts texts' lengths := by
    rw [eval_ofKey fl texts, eval_ofKey fl texts', nullIfEmpty_inj, join_eq_iff lengths,
      Record.keyTexts_eq_iff texts texts']

end Sql

namespace Hydration

variable {s : Shape} {e : TextExpr} {t : String} {columns : List String}

/-- Rows have an object each, no two of them one and none of them left out, if and only if no two
are alike and each has a text, where rows of a batch also have the key that `link` labels. -/
def KeepsByTexts (e : TextExpr) (t : String) (columns : List String) (s : Shape) (key : String)
    (link : Option String) : Prop :=
  ∀ (row : Record → Row) (rows : List Record), Carry (rows.map row) s.labels →
    (∀ ρ ∈ rows, ρ.HasTexts t columns ∧ (row ρ).value key = Value.ofText? (e.eval ρ)) →
    ∃ items, objects s (rows.map row) = .ok items ∧ (items.length = rows.length ↔
      rows.Pairwise (fun ρ τ =>
        String.join (ρ.keyTexts t columns) ≠ String.join (τ.keyTexts t columns) ∨
          ∃ l, link = some l ∧ (row ρ).keyAt l ≠ (row τ).keyAt l) ∧
      ∀ ρ ∈ rows, (∃ s ∈ ρ.keyTexts t columns, s ≠ "") ∨
        ∃ l, link = some l ∧ ((row ρ).keyAt l).isSome)

theorem TellsBy.keepsByTexts {key : String} {link : Option String} (tells : TellsBy s key link)
    (texts : e.TellsTexts t columns) : KeepsByTexts e t columns s key link := by
  intro row rows carry read
  have cell {ρ : Record} (member : ρ ∈ rows) :
      (row ρ).keyAt key = (e.eval ρ).map Key.text := by
    rw [Row.keyAt, (read ρ member).2, Value.key?_ofText?]
  have apart : Function.Injective (Option.map Key.text) :=
    Option.map_injective (fun _ _ => Key.text.inj)
  refine ⟨_, objects_eq s carry, ?_⟩
  rw [← List.length_map (f := row), length_values_iff, List.map_map, List.Nodup, List.pairwise_map,
    List.forall_mem_map]
  refine and_congr (List.Pairwise.iff_of_mem (fun {ρ τ} hρ hτ => ?_))
    (forall₂_congr (fun ρ member => ?_))
  · have same := texts.same_iff ρ τ (read ρ hρ).1 (read τ hτ).1
    rw [Function.comp_apply, Function.comp_apply, ne_eq, tells.keyOf_eq_iff, cell hρ, cell hτ,
      apart.eq_iff, same, not_and_or]
    push Not
    rfl
  · have empty := texts.null_iff ρ (read ρ member).1
    rw [tells.isMatched_iff, cell member, Option.isSome_map, Option.isSome_iff_ne_none, ne_eq,
      empty]
    push Not
    rfl

end Hydration

section Request

variable {Ctx : Type} {schema : Schema Ctx} {minify : Bool} {cx : Ctx} {x : Selection}

/-- Every table of a plan has the unique key of a type. A key of several columns is selected as one
text, the texts of its columns put together and null if they are all empty. So a row keeps an object
of its own, however the table is reached, if and only if no other row reads alike and it has a text
at all, where the rows of a batch may also be told by the key that links them. -/
theorem composite_keys_tell_texts {root : Node} (planned : schema.plan minify cx x = .ok root)
    (fl : Flavor) : root.Everywhere (fun p nodes => ∃ key, p.HasKey schema cx key ∧
      (2 ≤ key.length → ∃ c e, nodes.head? = some (.composite c) ∧ c.columns = key ∧
        TextExpr.read? ((Sql.compositeSource fl p key).text fl) = some e ∧
        e.TellsTexts p.label key ∧ ∀ path, ∃ s, Shape.ofNode path (.table p nodes) = .ok s ∧
          Hydration.KeepsByTexts e p.label key s (path ++ c.label)
            ((p.linkLabel? nodes).map (path ++ ·)))) := by
  have declared := Plan.everywhere_subtrees root (Plan.plan_declared planned)
  refine Node.everywhere_mono (fun p nodes declared => ?_) root declared
  have headed := Node.everywhere_mono (fun _ _ declared => declared.headed) (.table p nodes) declared
  obtain ⟨key, configured, first⟩ := declared.1.key
  refine ⟨key, configured, fun several => ?_⟩
  obtain ⟨label, first⟩ := first several
  obtain ⟨c, cs, rfl⟩ := List.exists_cons_of_length_pos (Nat.lt_of_lt_of_le Nat.zero_lt_two several)
  have texts := TextExpr.tellsTexts_ofKey fl p.label c cs
  refine ⟨_, _, first, rfl, TextExpr.read?_compositeSource fl p c cs, texts, fun path => ?_⟩
  obtain ⟨s, shaped⟩ := Plan.shaped_of_headed (.table p nodes) headed rfl path
  obtain ⟨u, unique, tells⟩ := Hydration.tellsBy_of_headed headed.1 shaped
  rw [Plan.uniqueLabel?_composite first] at unique
  cases unique
  exact ⟨s, shaped, tells.keepsByTexts texts⟩

end Request

section Shelved

/-- Books stand on shelves under numbers, which are texts. -/
def shelvedTypes : List (ObjectType Unit) :=
  [.ofFields "Query" none [plainField "books" (.object "Book" true)],
    .ofFields "Book" (some ⟨.static (.ident "books"), ["shelf", "number"], [], none⟩)
      [plainField "title" .scalar]]

def shelved : Schema Unit :=
  ⟨shelvedTypes, .ofFields "Query" none [plainField "books" (.object "Book" true)]⟩

theorem build_shelved : Schema.build shelvedTypes "Query" = .ok shelved := by rfl

def titles : Selection := ⟨"books", none, .empty, [.leaf "title" none]⟩

def shelvedTable : Table := { productsTable with
  name := .ident "books"
  label := "books"
  fieldName := "books"
  location := ["Query", "books"] }

def shelvedNodes : List Node :=
  [.composite ⟨["shelf", "number"], "shelf#number", ["Query", "books"]⟩,
    .column ⟨.name "title", "title", "title", false, none, ["Query", "books", "title"]⟩]

theorem plan_titles : shelved.plan false () titles = .ok (.table shelvedTable shelvedNodes) := by
  rfl

def shelvedBook (shelf number title : String) : Record := fun source =>
  if source = Sql.qualified "books" "shelf" then .text shelf
  else if source = Sql.qualified "books" "number" then .text number
  else .text title

theorem hasTexts_shelvedBook (shelf number title : String) :
    (shelvedBook shelf number title).HasTexts "books" ["shelf", "number"] :=
  List.forall_mem_cons.mpr ⟨⟨shelf, rfl⟩, List.forall_mem_singleton.mpr ⟨number, rfl⟩⟩

/-- A row of the statement, with what the database makes of the key. -/
def shelvedRow (fl : Flavor) (ρ : Record) : Row :=
  ⟨[("shelf#number", Value.ofText? ((TextExpr.ofKey fl "books" "shelf" ["number"]).eval ρ)),
    ("title", ρ (Sql.qualified "books" "title"))]⟩

def shelvedDriver (fl : Flavor) (books : List Record) : Driver Unit where
  answer _ s := (.rows false (books.map (fun ρ => ⟨.ok (shelvedRow fl ρ), false⟩)), s)

/-- The second book of the first shelf and the first one of the second are kept apart. -/
theorem composite_keys_tell_texts_shelved : ∃ s items,
    Shape.ofNode "" (.table shelvedTable shelvedNodes) = .ok s ∧
    Hydration.objects s ([shelvedBook "a" "b" "Dune", shelvedBook "b" "a" "Emma"].map
      (shelvedRow .postgresql)) = .ok items ∧ items.length = 2 := by
  obtain ⟨key, ⟨type, known, config, configured, _, unique⟩, told⟩ :=
    (composite_keys_tell_texts plan_titles .postgresql).1
  have books : config.uniqueKey = ["shelf", "number"] := by
    rcases List.mem_pair.mp known with rfl | rfl
    · cases configured
    · cases configured
      rfl
  obtain rfl : ["shelf", "number"] = key := books.symm.trans unique
  obtain ⟨c, e, first, _, read, _, shaped⟩ := told (Nat.le_refl 2)
  cases first
  obtain ⟨s, shape, keeps⟩ := shaped ""
  cases (TextExpr.read?_compositeSource .postgresql shelvedTable "shelf" ["number"]).symm.trans read
  cases shape
  obtain ⟨items, folded, kept⟩ := keeps (shelvedRow .postgresql)
    [shelvedBook "a" "b" "Dune", shelvedBook "b" "a" "Emma"]
    (List.forall_mem_cons.mpr ⟨by decide, List.forall_mem_singleton.mpr (by decide)⟩)
    (List.forall_mem_cons.mpr ⟨⟨hasTexts_shelvedBook _ _ _, rfl⟩,
      List.forall_mem_singleton.mpr ⟨hasTexts_shelvedBook _ _ _, rfl⟩⟩)
  refine ⟨_, items, rfl, folded, kept.mpr ⟨List.pairwise_pair.mpr (.inl ?_), ?_⟩⟩
  · decide
  · exact List.forall_mem_cons.mpr ⟨.inl (by decide), List.forall_mem_singleton.mpr
      (.inl (by decide))⟩

def dune : Record := shelvedBook "a" "bc" "Dune"

def emma : Record := shelvedBook "ab" "c" "Emma"

/-- This one has a number and a shelf, which are both empty. -/
def iliad : Record := shelvedBook "" "" "Iliad"

theorem composite_key_folds_shelved : Schema.build shelvedTypes "Query" = .ok shelved ∧
    (∀ ρ ∈ [dune, emma, iliad], ρ.HasTexts "books" ["shelf", "number"]) ∧
    dune.keyTexts "books" ["shelf", "number"] ≠ emma.keyTexts "books" ["shelf", "number"] ∧
    ∀ fl, TextExpr.read? ((Sql.compositeSource fl shelvedTable ["shelf", "number"]).text fl) =
        some (TextExpr.ofKey fl "books" "shelf" ["number"]) ∧
      ∃ s', execute shelved fl false () (shelvedDriver fl [dune, emma, iliad]) titles
          ⟨(), false, []⟩ =
        (.ok (.list [.object [("shelf#number", .text "abc"), ("title", .text "Dune")]]), s') := by
  refine ⟨build_shelved, ?_, by decide, fun fl => ⟨TextExpr.read?_compositeSource _ _ _ _, ?_⟩⟩
  · simp [dune, emma, iliad, hasTexts_shelvedBook]
  · cases fl <;> exact ⟨_, Prod.ext rfl rfl⟩

end Shelved

end TreeQuery
