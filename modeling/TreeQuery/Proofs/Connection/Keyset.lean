import Mathlib.Data.List.DropRight
import TreeQuery.Connection
import TreeQuery.Proofs.Fields
import TreeQuery.Proofs.Success

/-!
Keyset pages: what the arguments of a table ask for, and what a page shows of the items that were
fetched for it.
-/

namespace TreeQuery

open Plan (KeysetPage Table)

namespace Plan.Table

/-- The sort key decides, also where the table has an order besides. -/
theorem paging_keyset {t : Table} {key : SortKey} {label : String}
    (keyed : t.keyset? = some (key, label)) :
    t.paging = (t.keysetPage key label).map .keyset := by
  rw [paging, keyed]

/-- The arguments of a table ask for a page on one side, by `first` and `after` or by `last` and
`before`. -/
structure Asks (t : Table) (backward : Bool) (count : Option Nat) (cursor : Option String) :
    Prop where
  counts : t.count? (if backward then "last" else "first") = .ok count
  starts : t.cursor? (if backward then "before" else "after") = .ok cursor
  noCount : t.count? (if backward then "first" else "last") = .ok none
  noCursor : t.cursor? (if backward then "after" else "before") = .ok none
  given : backward = true → count ≠ none ∨ cursor ≠ none

theorem Asks.bounds {t : Table} {backward : Bool} {count : Option Nat} {cursor : Option String}
    (asks : t.Asks backward count cursor) : ∃ first last after before,
      t.count? "first" = .ok first ∧ t.count? "last" = .ok last ∧
      t.cursor? "after" = .ok after ∧ t.cursor? "before" = .ok before ∧
      keysetBounds t.location first last after before = .ok (count, backward, cursor) := by
  obtain ⟨counts, starts, noCount, noCursor, given⟩ := asks
  cases backward with
  | false =>
    refine ⟨count, none, cursor, none, counts, noCount, starts, noCursor, ?_⟩
    cases count <;> cases cursor <;> rfl
  | true =>
    refine ⟨none, count, none, cursor, noCount, counts, noCursor, starts, ?_⟩
    cases count <;> cases cursor <;> first | rfl | simp at given

/-- A page that is asked for on one side is refused only for its cursor. -/
theorem keysetPage_asks {t : Table} {key : SortKey} {label : String} {backward : Bool}
    {count : Option Nat} {cursor : Option String} (asks : t.Asks backward count cursor)
    {p : KeysetPage} : t.keysetPage key label = .ok p ↔ ∃ position,
      cursor.mapM (fun c => Cursor.toKeyset c key) = .ok position ∧
      p = ⟨key, label, count, backward, position⟩ := by
  obtain ⟨first, last, after, before, hfirst, hlast, hafter, hbefore, bounds⟩ := asks.bounds
  have bound : t.keysetPage key label = (match cursor with
      | none => .ok ⟨key, label, count, backward, none⟩
      | some c => do
        let values ← (Cursor.toKeyset c key).mapError (.cursor t.location)
        return ⟨key, label, count, backward, some values⟩) := by
    rw [keysetPage, hfirst, hlast, hafter, hbefore]
    simp only [bind, Except.bind, bounds]
    cases cursor <;> rfl
  rw [bound]
  cases cursor with
  | none =>
    constructor
    · intro made
      cases made
      exact ⟨none, rfl, rfl⟩
    · rintro ⟨position, decoded, rfl⟩
      cases decoded
      rfl
  | some c =>
    simp only [bind_eq_ok, mapError_eq_ok]
    constructor
    · rintro ⟨values, read, made⟩
      cases made
      exact ⟨some values, map_eq_ok.mpr ⟨values, read, rfl⟩, rfl⟩
    · rintro ⟨position, decoded, rfl⟩
      obtain ⟨values, read, rfl⟩ := map_eq_ok.mp decoded
      exact ⟨values, read, rfl⟩

/-- A page that is not refused is asked for on one side. -/
theorem keysetPage_asked {t : Table} {key : SortKey} {label : String} {p : KeysetPage}
    (page : t.keysetPage key label = .ok p) : ∃ backward count cursor position,
      t.Asks backward count cursor ∧ p = ⟨key, label, count, backward, position⟩ := by
  obtain ⟨first, hfirst, rest⟩ := bind_eq_ok.mp page
  obtain ⟨last, hlast, rest⟩ := bind_eq_ok.mp rest
  obtain ⟨after, hafter, rest⟩ := bind_eq_ok.mp rest
  obtain ⟨before, hbefore, rest⟩ := bind_eq_ok.mp rest
  obtain ⟨⟨count, backward, cursor⟩, bounds, _⟩ := bind_eq_ok.mp rest
  have asks : t.Asks backward count cursor := by
    cases first <;> cases last <;> cases after <;> cases before <;> cases bounds
    all_goals exact ⟨by assumption, by assumption, by assumption, by assumption, by simp⟩
  obtain ⟨position, _, made⟩ := (keysetPage_asks asks).mp page
  exact ⟨backward, count, cursor, position, asks, made⟩

theorem keysetPage_key {t : Table} {key : SortKey} {label : String} {p : KeysetPage}
    (h : t.keysetPage key label = .ok p) : p.key = key ∧ p.table = label := by
  obtain ⟨_, _, _, _, _, rfl⟩ := keysetPage_asked h
  exact ⟨rfl, rfl⟩

end Plan.Table

/-- So many of the rows that qualify for a page, the first ones or the last ones, or all. -/
def window {α : Type} (backward : Bool) : Option Nat → List α → List α
  | none, rows => rows
  | some n, rows => if backward then rows.rtake n else rows.take n

theorem map_window {α β : Type} (f : α → β) (backward : Bool) (count : Option Nat) (rows : List α) :
    (window backward count rows).map f = window backward count (rows.map f) := by
  cases count with
  | none => rfl
  | some n => cases backward <;> simp [window, List.rtake, List.map_drop]

namespace Connection

/-- A name of the key has the value that the node has in the field of that name. -/
theorem get?_keyFields {key : SortKey} {c : SortColumn} (member : c ∈ key) (node : Value) :
    Fields.get? (keyFields key node) c.name = some ((node.field? c.name).getD .null) := by
  rw [keyFields, Fields.get?_ofPairs]
  cases found : Fields.last? _ c.name with
  | none =>
    refine absurd ?_ (Fields.last?_eq_none.mp found)
    simpa [Fields.names] using ⟨c, member, rfl⟩
  | some v =>
    obtain ⟨d, _, same⟩ := List.mem_map.mp (Fields.mem_of_last? found)
    obtain ⟨name, rfl⟩ := Prod.mk.inj same
    rw [name]

/-- The items that a page shows, in the order of its edges. -/
def shown (p : KeysetPage) (items : List Value) : List Value :=
  let nodes := match p.count with
    | some n => items.take n
    | none => items
  if p.backward then nodes.reverse else nodes

theorem shown_subset (p : KeysetPage) (items : List Value) : shown p items ⊆ items := by
  have kept : (match p.count with
      | some n => items.take n
      | none => items) ⊆ items := by
    split
    · exact List.take_subset _ _
    · exact List.Subset.refl _
  intro v member
  rw [shown] at member
  split at member
  · exact kept (List.mem_reverse.mp member)
  · exact kept member

/-- There are more items than the page shows. -/
def more (p : KeysetPage) (items : List Value) : Bool := p.count.any (fun n => n < items.length)

def edge (key : SortKey) (node : Value) : String × Value :=
  (Cursor.ofFields (keyFields key node), node)

theorem ofKeyset_eq (p : KeysetPage) (items : List Value) : ofKeyset p items =
    ofEdges ((shown p items).map (edge p.key)) (more p items && !p.backward)
      (more p items && p.backward) none := rfl

/-- What a page says of the edges that qualify for it. -/
def pageInfo (backward : Bool) (count : Option Nat) (edges : List (String × Value)) : PageInfo :=
  let shown := window backward count edges
  let more := count.any (fun n => n < edges.length)
  ⟨more && !backward, more && backward, shown.head?.map Prod.fst, shown.getLast?.map Prod.fst⟩

/-- The page of the edges that qualify for it. -/
def page (backward : Bool) (count : Option Nat) (edges : List (String × Value)) : Value :=
  .connection (window backward count edges) (pageInfo backward count edges) none

/-- The items of a table with a sort key are a page of their sort key. -/
theorem ofItems_keyset {t : Table} {key : SortKey} {label : String}
    (keyed : t.keyset? = some (key, label)) {items : List Value} {v : Value} :
    ofItems t items = .ok v ↔ ∃ p, t.keysetPage key label = .ok p ∧ v = ofKeyset p items := by
  rw [ofItems, Plan.Table.paging_keyset keyed]
  cases t.keysetPage key label with
  | error e => simp [Except.map, Except.mapError, bind, Except.bind]
  | ok p => simp [Except.map, Except.mapError, bind, Except.bind, pure, Except.pure, eq_comm]

end Connection

end TreeQuery
