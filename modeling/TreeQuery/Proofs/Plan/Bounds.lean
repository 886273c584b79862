import TreeQuery.Proofs.Connection.Keyset
import TreeQuery.Proofs.Connection.Offset
import TreeQuery.Proofs.Value.Keys

/-!
How many rows a page is limited to, and where it starts. The start is within 64 signed bits. The
limit is one more than the count that was asked for, and this count is held at the end of 64 signed
bits, where the limit is past it.
-/

namespace TreeQuery

open Option (Rel)
open Plan (Paging Table)

/-- The largest integer of 64 signed bits. -/
def largestInt64 : Nat := 2 ^ 63 - 1

namespace Value

/-- The number that a value is, or that its text spells. -/
def quantity? (v : Value) : Option ℚ :=
  match v.datum? with
  | some (.number q) => some q
  | some (.text s) => match Numeral.int? s.toList with
    | some i => some i
    | none => none
  | _ => none

/-- The integer that is read out of a value is its number, held at the ends of 64 signed bits. Only
the number of a double can be beyond them. -/
theorem quantity?_of_int? {v : Value} {i : Int64} (read : v.int? = some i) : ∃ k : ℤ,
    v.quantity? = some (k : ℚ) ∧ i = Double.clampInt64 k ∧
      (Numeral.fitsInt64 k = true ∨ ∃ x, v = .double x) := by
  cases v with
  | int j =>
    cases read
    exact ⟨i.toInt, rfl, (Double.clampInt64_toInt i).symm, .inl (Numeral.fitsInt64_toInt i)⟩
  | double x =>
    simp only [int?] at read
    split at read
    · rename_i integral
      cases read
      refine ⟨x.truncate, ?_, Double.toInt64_of_isIntegral integral, .inr ⟨x, rfl⟩⟩
      rw [quantity?, datum?, Double.datum_of_isIntegral integral]
    · cases read
  | text s =>
    obtain ⟨k, spelled, within⟩ := Option.bind_eq_some_iff.mp read
    split at within
    · rename_i fits
      cases within
      refine ⟨k, ?_, (Double.clampInt64_of_fits fits).symm, .inl fits⟩
      simp only [quantity?, datum?, spelled]
    · cases within
  | json j =>
    cases j with
    | number n =>
      cases n with
      | natural n =>
        simp only [int?, Json.Number.int64?] at read
        split at read
        · rename_i fits
          cases read
          refine ⟨n.toNat, ?_, (Double.clampInt64_of_fits fits).symm, .inl fits⟩
          simp only [quantity?, datum?, Json.datum?, Json.Number.datum, fits, if_true]
          norm_cast
        · cases read
      | negative j =>
        cases read
        exact ⟨i.toInt, rfl, (Double.clampInt64_toInt i).symm, .inl (Numeral.fitsInt64_toInt i)⟩
      | double x => cases read
    | null | bool _ | string _ | array _ | object _ => cases read
  | null | bool _ | list _ | object _ | connection _ _ _ => cases read

/-- A limit of one more than the count `k` that a value asks for. It is that, and is within 64 signed
bits, unless the count is at their end or past it; and only a double is past it. -/
structure OneMore (v : Value) (k limit : Nat) : Prop where
  number : v.quantity? = some (k : ℚ)
  held : limit = min k largestInt64 + 1
  exact : limit = k + 1 ↔ k ≤ largestInt64
  within : limit ≤ largestInt64 ↔ k < largestInt64
  double : largestInt64 < k → ∃ x, v = .double x

/-- The integer that is read out of a value, if it can be a count, asks for one row more. -/
theorem oneMore_of_int? {v : Value} {i : Int64} (read : v.int? = some i) (counts : 0 ≤ i.toInt) :
    ∃ k, v.OneMore k (i.toInt.toNat + 1) := by
  obtain ⟨k, number, rfl, fits⟩ := quantity?_of_int? read
  have least : Int64.minValue.toInt = -2 ^ 63 := by decide
  have most : Int64.maxValue.toInt = largestInt64 := by decide
  have held := Double.toInt_clampInt64_eq k
  rw [least, most] at held
  -- A negative number would be held at a negative one.
  obtain ⟨k, rfl⟩ : ∃ n : ℕ, k = n := Int.eq_ofNat_of_zero_le (by omega)
  have limit : (Double.clampInt64 k).toInt.toNat + 1 = min k largestInt64 + 1 := by omega
  refine ⟨k, ⟨by exact_mod_cast number, limit, by omega, by omega, fun past => ?_⟩⟩
  refine fits.resolve_left (fun fits => ?_)
  rw [Numeral.fitsInt64_natCast] at fits
  rw [largestInt64] at past
  omega

end Value

namespace Plan

/-- Where a page starts that goes by position. -/
def Paging.offset? : Paging → Option Nat
  | .offset p => some p.offset
  | .keyset _ => none

namespace Table

/-- The count of rows that a table is asked for, as it was given. -/
def asked? (t : Table) : Option Value :=
  (t.arguments.get? "first").or (t.arguments.get? "last")

/-- A page starts within 64 signed bits. It is limited if a count was given, and not by two. -/
structure Bounded (t : Table) (limit offset : Option Nat) : Prop where
  start : ∀ n ∈ offset, n ≤ largestInt64
  single : t.arguments.get? "first" = none ∨ t.arguments.get? "last" = none
  limit : Rel (fun v n => ∃ k, v.OneMore k n) t.asked? limit

variable {t : Table}

theorem get?_of_count? {name : String} {count : Option Nat} (read : t.count? name = .ok count) :
    Rel (fun v n => ∃ i : Int64, v.int? = some i ∧ 0 ≤ i.toInt ∧ n = i.toInt.toNat)
      (t.arguments.get? name) count := by
  unfold count? at read
  rw [mapError_eq_ok, Arguments.count?] at read
  cases given : t.arguments.get? name with
  | none =>
    rw [given] at read
    cases read
    exact .none
  | some v =>
    simp only [given] at read
    split at read
    · rename_i i integer
      split at read
      · rename_i counts
        cases read
        exact .some ⟨i, integer, counts, rfl⟩
      · cases read
    · cases read

theorem not_given {name : String} (read : t.count? name = .ok none) :
    t.arguments.get? name = none := by
  have given := get?_of_count? read
  cases found : t.arguments.get? name with
  | none => rfl
  | some v =>
    rw [found] at given
    cases given

theorem limit_of_count? {name : String} {count : Option Nat} (read : t.count? name = .ok count) :
    Rel (fun v n => ∃ k, v.OneMore k n) (t.arguments.get? name) (count.map (· + 1)) := by
  have given := get?_of_count? read
  generalize t.arguments.get? name = v at given
  cases given with
  | none => exact .none
  | some counted =>
    obtain ⟨i, integer, counts, rfl⟩ := counted
    exact .some (Value.oneMore_of_int? integer counts)

theorem Asks.bounded {backward : Bool} {count : Option Nat} {cursor : Option String}
    (asks : t.Asks backward count cursor) : t.Bounded (count.map (· + 1)) none := by
  cases backward with
  | false =>
    have other : t.arguments.get? "last" = none := not_given asks.noCount
    refine ⟨nofun, .inr other, ?_⟩
    rw [asked?, other, Option.or_none]
    exact limit_of_count? asks.counts
  | true =>
    have other : t.arguments.get? "first" = none := not_given asks.noCount
    refine ⟨nofun, .inl other, ?_⟩
    rw [asked?, other, Option.none_or]
    exact limit_of_count? asks.counts

theorem AsksAfter.bounded {first : Option Nat} {after : Option String} {offset : Nat}
    (asks : t.AsksAfter first after) (opens : Cursor.Opens after offset) :
    t.Bounded (first.map (· + 1)) (some offset) := by
  have other : t.arguments.get? "last" = none := by simpa [Arguments.contains] using asks.noLast
  refine ⟨?_, .inr other, ?_⟩
  · rintro n ⟨⟩
    rw [largestInt64]
    cases opens with
    | start => omega
    | behind _ fits => omega
  · rw [asked?, other, Option.or_none]
    exact limit_of_count? asks.counts

/-- The page that a table's arguments ask for is bounded by them. -/
theorem bounded_of_paging {p : Paging} (asked : t.paging = .ok p) : t.Bounded p.limit p.offset? := by
  unfold paging at asked
  split at asked
  · obtain ⟨q, page, rfl⟩ := map_eq_ok.mp asked
    obtain ⟨backward, count, cursor, position, asks, rfl⟩ := keysetPage_asked page
    exact asks.bounded
  · obtain ⟨q, page, rfl⟩ := map_eq_ok.mp asked
    obtain ⟨first, after, offset, asks, opens, rfl⟩ := offsetPage_asked page
    exact asks.bounded opens
  · cases asked

end Table

end Plan

end TreeQuery
