import Mathlib.Algebra.Group.Nat.Defs
import TreeQuery.Connection
import TreeQuery.Proofs.Cursor.Offset
import TreeQuery.Proofs.Success
import TreeQuery.Proofs.Sql.Answers

/-!
Offset pages: what the arguments of a table ask for, which position a cursor stands for, and what a
page shows of the rows that were fetched for it.
-/

namespace TreeQuery

open Plan (OffsetPage Table totalColumn)
open Sql (upTo)

namespace Cursor

/-- Where a page starts that comes after a cursor, or has none. -/
inductive Opens : Option String → Nat → Prop
  | start : Opens none 0
  | behind {c : String} {n : Nat} (decoded : toOffset c = .ok n)
      (fits : n + 1 < 2 ^ 63) : Opens (some c) (n + 1)

/-- A cursor at which a walk over so many rows can be, and where it goes on from there: it starts
without one, and comes to the positions of rows. -/
inductive Visited (count : Nat) : Option String → Nat → Prop
  | start : Visited count none 0
  | row {k : Nat} (within : k < count) : Visited count (some (ofOffset k)) (k + 1)

theorem Visited.opens {count offset : Nat} {cursor : Option String} (small : count < 2 ^ 63)
    (visited : Visited count cursor offset) : Opens cursor offset := by
  cases visited with
  | start => exact .start
  | row within => exact .behind (toOffset_ofOffset (by omega)) (by omega)

end Cursor

namespace Plan.Table

variable {t : Table} {first : Option Nat} {after : Option String}

/-- The arguments of a table ask for so many rows, or all, that come after a cursor, if there is
one. -/
structure AsksAfter (t : Table) (first : Option Nat) (after : Option String) : Prop where
  counts : t.count? "first" = .ok first
  starts : t.cursor? "after" = .ok after
  noLast : t.arguments.contains "last" = false
  noBefore : t.arguments.contains "before" = false

/-- A page that is asked for in this way is refused only for its cursor. -/
theorem offsetPage_asks (asks : t.AsksAfter first after) {order : OrderBy} {label : String}
    {p : OffsetPage} : t.offsetPage order label = .ok p ↔
      ∃ offset, Cursor.Opens after offset ∧ p = ⟨order, label, first, offset⟩ := by
  have fits (n : Nat) : Numeral.fitsInt64 (n + 1) = true ↔ n + 1 < 2 ^ 63 :=
    Numeral.fitsInt64_natCast (n := n + 1)
  have page : t.offsetPage order label = (match after with
      | none => .ok ⟨order, label, first, 0⟩
      | some c => do
        let n ← (Cursor.toOffset c).mapError (.cursor t.location)
        if Numeral.fitsInt64 (n + 1) then return ⟨order, label, first, n + 1⟩
        else throw (.pastRange c)) := by
    rw [offsetPage, asks.noLast, asks.noBefore, asks.counts, asks.starts]
    cases after <;> rfl
  rw [page]
  cases after with
  | none =>
    constructor
    · intro made
      cases made
      exact ⟨0, .start, rfl⟩
    · rintro ⟨_, ⟨⟩, rfl⟩
      rfl
  | some c =>
    constructor
    · intro made
      obtain ⟨n, read, made⟩ := bind_eq_ok.mp made
      split at made
      · rename_i small
        cases made
        exact ⟨_, .behind (mapError_eq_ok.mp read) ((fits n).mp small), rfl⟩
      · cases made
    · rintro ⟨_, opens, rfl⟩
      obtain _ | ⟨decoded, small⟩ := opens
      apply bind_eq_ok.mpr ⟨_, mapError_eq_ok.mpr decoded, ?_⟩
      rw [if_pos ((fits _).mpr small)]
      rfl

/-- A page that is not refused is asked for going forward. -/
theorem offsetPage_asked {order : OrderBy} {label : String} {p : OffsetPage}
    (page : t.offsetPage order label = .ok p) : ∃ first after offset,
      t.AsksAfter first after ∧ Cursor.Opens after offset ∧ p = ⟨order, label, first, offset⟩ := by
  have rest := page
  unfold offsetPage at rest
  split at rest
  · cases rest
  rename_i forward
  simp only [Bool.or_eq_true, not_or, Bool.not_eq_true] at forward
  obtain ⟨first, hfirst, rest⟩ := bind_eq_ok.mp rest
  obtain ⟨after, hafter, _⟩ := bind_eq_ok.mp rest
  have asks : t.AsksAfter first after := ⟨hfirst, hafter, forward.1, forward.2⟩
  obtain ⟨offset, opens, made⟩ := (offsetPage_asks asks).mp page
  exact ⟨first, after, offset, asks, opens, made⟩

theorem offsetPage_order {order : OrderBy} {label : String} {p : OffsetPage}
    (page : t.offsetPage order label = .ok p) : p.order = order ∧ p.table = label := by
  obtain ⟨_, _, _, _, _, rfl⟩ := offsetPage_asked page
  exact ⟨rfl, rfl⟩

end Plan.Table

namespace Connection

section Numbered

variable {offset : Nat} {nodes nodes' : List Value}

theorem numbered_append (offset : Nat) (nodes nodes' : List Value) :
    numbered offset (nodes ++ nodes') =
      numbered offset nodes ++ numbered (offset + nodes.length) nodes' := by
  induction nodes generalizing offset with
  | nil => rfl
  | cons v nodes inductionHypothesis =>
    rw [List.cons_append, numbered, inductionHypothesis, numbered, List.length_cons,
      Nat.add_right_comm, List.cons_append, Nat.add_assoc]

theorem getElem?_numbered (offset : Nat) (nodes : List Value) (i : Nat) :
    (numbered offset nodes)[i]? = nodes[i]?.map (fun v => (Cursor.ofOffset (offset + i), v)) := by
  induction nodes generalizing offset i with
  | nil => rfl
  | cons v nodes inductionHypothesis =>
    cases i with
    | zero => rfl
    | succ i =>
      rw [numbered, List.getElem?_cons_succ, List.getElem?_cons_succ, inductionHypothesis,
        Nat.add_assoc, Nat.add_comm 1]

end Numbered

section Window

variable {α : Type} {p : OffsetPage} {rows : List α} {item : α → Value}

/-- The page from an offset on, with these nodes, of so many rows. Where there are none from the
offset on, their number is not known, and passes for none at all. -/
def pageFrom (offset count : Nat) (nodes : List Value) : Value :=
  ofEdges (numbered offset nodes) (offset + nodes.length < count) (0 < offset)
    (some (if offset < count then Int64.ofNat count else 0))

theorem upTo_upTo (first : Option Nat) (rows : List α) :
    upTo first (upTo (first.map (· + 1)) rows) = upTo first rows := by
  cases first with
  | none => rfl
  | some n => simp [upTo, List.take_take]

theorem map_upTo (f : α → Value) (first : Option Nat) (rows : List α) :
    (upTo first rows).map f = upTo first (rows.map f) := by
  cases first with
  | none => rfl
  | some n => exact List.map_take

theorem ofOffset_eq (p : OffsetPage) (items : List Value) : ofOffset p items =
    ofEdges (numbered p.offset (upTo p.first (items.map withoutTotal)))
      (decide (((p.offset + (upTo p.first (items.map withoutTotal)).length : Nat) : Int) <
        (total items).toInt)) (0 < p.offset) (some (total items)) := by
  obtain ⟨order, table, first, offset⟩ := p
  cases first <;> rfl

/-- Where each item tells one number, that is what the items tell, if there are any. -/
theorem total_eq {items : List Value} {n : Int64} {shown : Prop} [Decidable shown]
    (counted : ∀ v ∈ items, v.field? totalColumn = some (.int n)) (any : items ≠ [] ↔ shown) :
    total items = if shown then n else 0 := by
  cases items with
  | nil =>
    rw [if_neg (fun here => any.mpr here rfl)]
    rfl
  | cons v items =>
    rw [total, List.head?_cons, Option.bind_some, counted v (List.mem_cons_self ..),
      if_pos (any.mp (List.cons_ne_nil v items))]
    rfl

theorem upTo_eq_nil (first : Option Nat) (rows : List α) :
    upTo (first.map (· + 1)) rows = [] ↔ rows = [] := by
  cases first with
  | none => rfl
  | some n => simp [upTo]

theorem total_window (counted : ∀ r ∈ rows,
      (item r).field? totalColumn = some (.int (Int64.ofNat rows.length))) :
    total ((upTo (p.first.map (· + 1)) (rows.drop p.offset)).map item) =
      if p.offset < rows.length then Int64.ofNat rows.length else 0 := by
  apply total_eq
  · intro v among
    obtain ⟨r, here, rfl⟩ := List.mem_map.mp among
    exact counted r (List.mem_of_mem_drop ((Sql.upTo_sublist _ _).subset here))
  · rw [Ne, List.map_eq_nil_iff, upTo_eq_nil, List.drop_eq_nil_iff, Nat.not_le]

/-- The items that the statement of a page returns are enough to make it. -/
theorem ofOffset_window (small : rows.length < 2 ^ 63) (counted : ∀ r ∈ rows,
      (item r).field? totalColumn = some (.int (Int64.ofNat rows.length))) :
    ofOffset p ((upTo (p.first.map (· + 1)) (rows.drop p.offset)).map item) =
      pageFrom p.offset rows.length
        ((upTo p.first (rows.drop p.offset)).map (fun r => withoutTotal (item r))) := by
  have nodes : upTo p.first (((upTo (p.first.map (· + 1)) (rows.drop p.offset)).map item).map
      withoutTotal) = (upTo p.first (rows.drop p.offset)).map (fun r => withoutTotal (item r)) := by
    rw [List.map_map, map_upTo, upTo_upTo, map_upTo]
    rfl
  rw [ofOffset_eq, total_window counted, nodes, pageFrom]
  congr 1
  by_cases more : p.offset < rows.length
  · rw [if_pos more, Int64.toInt_ofNat_of_lt small]
    exact decide_eq_decide.mpr Int.ofNat_lt
  · rw [if_neg more]
    refine (decide_eq_false ?_).trans (decide_eq_false ?_).symm
    · exact Int.not_lt.mpr (Int.natCast_nonneg _)
    · omega

end Window

end Connection

end TreeQuery
