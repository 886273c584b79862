import Mathlib.Data.List.Forall2
import TreeQuery.Proofs.Double.Number
import TreeQuery.Proofs.Json.Scalars
import TreeQuery.Value.Key

/-!
What a correlation key tells of a cell. A key stands for the truth value, the number or the text of
its cell, however it was written, but an integer beyond 64 signed bits is held at their end. Cells
have one key just if they say the same once their integers are held.
-/

namespace TreeQuery

/-- What a single cell told. -/
inductive Datum where
  | truth (b : Bool)
  | number (q : ℚ)
  | infinity (negative : Bool)
  | nan (bits : UInt64)
  | text (s : String)

namespace Datum

/-- An integer beyond 64 signed bits is held at their end. -/
def held : Datum → Datum
  | .number q => if q.den = 1 then .number ((Double.clampInt64 q.num).toInt : ℚ) else .number q
  | d => d

/-- Not an integer beyond 64 signed bits. -/
def Fits : Datum → Prop
  | .number q => q.den = 1 → Numeral.fitsInt64 q.num = true
  | _ => True

/-- Integers that both stand at one end of 64 signed bits or beyond it. -/
def PastEnd (d e : Datum) : Prop :=
  ∃ i j : ℤ, d = .number i ∧ e = .number j ∧
    (Int64.maxValue.toInt ≤ i ∧ Int64.maxValue.toInt ≤ j ∨
      i ≤ Int64.minValue.toInt ∧ j ≤ Int64.minValue.toInt)

theorem held_int (i : ℤ) : held (.number i) = .number ((Double.clampInt64 i).toInt : ℚ) := by
  simp [held]

theorem held_of_den_ne {q : ℚ} (fraction : q.den ≠ 1) : held (.number q) = .number q :=
  if_neg fraction

theorem int_or_held (d : Datum) :
    (∃ i : ℤ, d = .number i) ∨ d.held = d ∧ ∀ i : ℤ, d ≠ .number i := by
  cases d with
  | number q =>
    by_cases whole : q.den = 1
    · exact .inl ⟨q.num, congrArg number (Rat.coe_int_num_of_den_eq_one whole).symm⟩
    · refine .inr ⟨held_of_den_ne whole, fun i same => whole ?_⟩
      rw [Datum.number.inj same]
      exact Rat.den_intCast i
  | truth _ | infinity _ | nan _ | text _ => exact .inr ⟨rfl, fun _ other => by cases other⟩

end Datum

namespace Double

def datum (x : Double) : Datum :=
  if x.isNaN then .nan x.bits else if x.isInfinite then .infinity x.isNegative else .number x.number

end Double

namespace Json

/-- An integer that 64 signed bits do not hold arrives as a double. -/
def Number.datum : Number → Datum
  | .natural n => if Numeral.fitsInt64 n.toNat then .number n.toNat else (Double.ofInt n.toNat).datum
  | .negative i => .number i.toInt
  | .double x => x.datum

def datum? : Json → Option Datum
  | .bool b => some (.truth b)
  | .number n => some n.datum
  | .string s => some (.text s)
  | _ => none

end Json

namespace Value

def datum? : Value → Option Datum
  | .bool b => some (.truth b)
  | .int i => some (.number i.toInt)
  | .double x => some x.datum
  | .text s => some (.text s)
  | .json j => j.datum?
  | _ => none

/-- What a cell says, or the cells of the list or of the JSON array that it holds. -/
def data : Value → List Datum
  | .list items => items.filterMap datum?
  | .json (.array items) => items.filterMap Json.datum?
  | v => v.datum?.toList

end Value

namespace Key

/-- What a key says, as the cell that it is bound as. -/
def datum : Key → Datum
  | .bool b => .truth b
  | .int i => .number i.toInt
  | .double bits => Double.datum ⟨bits⟩
  | .text s => .text s

theorem data_toValue (k : Key) : k.toValue.data = [k.datum] := by
  cases k <;> rfl

/-- The key of a cell that says `d`: it says the same with integers held, and as an integer if it
is one. -/
structure Tells (k : Key) (d : Datum) : Prop where
  datum : k.datum = d.held
  reduced : ∀ bits, k = .double bits → Double.isIntegral ⟨bits⟩ = false

end Key

namespace Double

variable {x y : Double}

theorem clampInt64_of_fits {i : ℤ} (fits : Numeral.fitsInt64 i = true) :
    clampInt64 i = Int64.ofInt i := by
  simp only [Numeral.fitsInt64, Bool.and_eq_true, decide_eq_true_eq] at fits
  obtain ⟨low, high⟩ := fits
  rw [clampInt64, if_neg (by omega), if_neg (by omega)]

theorem toInt_clampInt64 {i : ℤ} (fits : Numeral.fitsInt64 i = true) :
    (clampInt64 i).toInt = i := by
  rw [clampInt64_of_fits fits, Numeral.toInt_ofInt_of_fits fits]

theorem clampInt64_toInt (i : Int64) : clampInt64 i.toInt = i :=
  Int64.toInt_inj.mp (toInt_clampInt64 (Numeral.fitsInt64_toInt i))

theorem toInt_clampInt64_eq (i : ℤ) :
    (clampInt64 i).toInt = max Int64.minValue.toInt (min i Int64.maxValue.toInt) := by
  have ends : Int64.minValue.toInt ≤ Int64.maxValue.toInt := by decide
  by_cases fits : Numeral.fitsInt64 i = true
  · rw [toInt_clampInt64 fits]
    simp only [Numeral.fitsInt64, Bool.and_eq_true, decide_eq_true_eq] at fits
    omega
  · simp only [Numeral.fitsInt64, Bool.and_eq_true, decide_eq_true_eq] at fits
    rw [clampInt64]
    split
    · omega
    split
    · omega
    · omega

theorem datum_of_isIntegral (integral : x.isIntegral = true) : x.datum = .number x.truncate := by
  have finite : x.exponentField ≠ 2047 := by
    simpa [isFinite] using (Bool.and_eq_true_iff.mp integral).1
  rw [datum, isNaN, isInfinite, number_of_isIntegral integral]
  simp [finite]

theorem toInt64_of_isIntegral (integral : x.isIntegral = true) :
    x.toInt64 = clampInt64 x.truncate := by
  have finite : x.exponentField ≠ 2047 := by
    simpa [isFinite] using (Bool.and_eq_true_iff.mp integral).1
  rw [toInt64, isNaN, isInfinite]
  simp [finite]

theorem number_of_datum {q : ℚ} (told : x.datum = .number q) :
    x.isFinite = true ∧ x.number = q := by
  unfold datum at told
  split at told
  · cases told
  split at told
  · cases told
  · rename_i nan infinite
    cases told
    refine ⟨?_, rfl⟩
    simp only [isNaN, isInfinite, Bool.and_eq_true, decide_eq_true_eq, not_and] at nan infinite
    simp only [isFinite, decide_eq_true_eq]
    intro top
    exact infinite top (by simpa using nan top)

theorem bits_of_datum {bits : UInt64} (told : x.datum = .nan bits) : x.bits = bits := by
  unfold datum at told
  split at told
  · cases told
    rfl
  · split at told <;> cases told

theorem fields_of_datum {negative : Bool} (told : x.datum = .infinity negative) :
    x.isNegative = negative ∧ x.exponentField = 2047 ∧ x.fractionField = 0 := by
  unfold datum at told
  split at told
  · cases told
  split at told
  · rename_i infinite
    cases told
    exact ⟨rfl, by simpa [isInfinite] using infinite⟩
  · cases told

theorem datum_ne_truth (x : Double) (b : Bool) : x.datum ≠ .truth b := by
  unfold datum
  split
  · nofun
  · split <;> nofun

theorem datum_ne_text (x : Double) (s : String) : x.datum ≠ .text s := by
  unfold datum
  split
  · nofun
  · split <;> nofun

theorem datum_ne_int (fraction : x.isIntegral = false) (i : ℤ) : x.datum ≠ .number i := by
  intro told
  obtain ⟨finite, number⟩ := number_of_datum told
  rw [isIntegral_of_number finite number] at fraction
  cases fraction

/-- A double with a fraction, an infinity and a NaN are known by what they say. -/
theorem datum_inj (fraction : x.isIntegral = false) (same : x.datum = y.datum) : x = y := by
  cases told : x.datum with
  | number q =>
    obtain ⟨_, left⟩ := number_of_datum told
    obtain ⟨_, right⟩ := number_of_datum (same ▸ told)
    refine number_inj (fun zero => ?_) (left.trans right.symm)
    have none : q = ((0 : ℤ) : ℚ) := by rw [← left, zero, Int.cast_zero]
    exact datum_ne_int fraction 0 (told.trans (congrArg Datum.number none))
  | nan bits =>
    obtain ⟨a⟩ := x
    obtain ⟨b⟩ := y
    exact congrArg Double.mk ((bits_of_datum told).trans (bits_of_datum (same ▸ told)).symm)
  | infinity negative =>
    obtain ⟨sign, top, whole⟩ := fields_of_datum told
    obtain ⟨sign', top', whole'⟩ := fields_of_datum (same ▸ told)
    exact eq_of_fields (sign.trans sign'.symm) (top.trans top'.symm) (whole.trans whole'.symm)
  | truth b => exact absurd told (datum_ne_truth x b)
  | text s => exact absurd told (datum_ne_text x s)

end Double

namespace Datum

variable {d e : Datum}

theorem held_eq_held_iff : d.held = e.held ↔ d = e ∨ PastEnd d e := by
  have apart {i : ℤ} {e : Datum} (other : ∀ j : ℤ, e ≠ .number j) :
      ¬(.number i = e ∨ PastEnd (.number i) e ∨ PastEnd e (.number i)) := by
    rintro (same | ⟨_, j, _, same, _⟩ | ⟨j, _, same, _⟩)
    · exact other i same.symm
    · exact other j same
    · exact other j same
  rcases int_or_held d with ⟨i, rfl⟩ | ⟨own, whole⟩ <;>
    rcases int_or_held e with ⟨j, rfl⟩ | ⟨own', whole'⟩
  · have ends : Int64.minValue.toInt < Int64.maxValue.toInt := by decide
    have past : PastEnd (.number i) (.number j) ↔
        Int64.maxValue.toInt ≤ i ∧ Int64.maxValue.toInt ≤ j ∨
          i ≤ Int64.minValue.toInt ∧ j ≤ Int64.minValue.toInt := by
      simp [PastEnd]
    rw [past, held_int, held_int, number.injEq, number.injEq, Int.cast_inj, Int.cast_inj,
      Double.toInt_clampInt64_eq, Double.toInt_clampInt64_eq]
    omega
  · rw [held_int, own']
    exact iff_of_false (whole' _ ·.symm) fun same => apart whole' (same.imp_right .inl)
  · rw [held_int, own]
    refine iff_of_false (whole _) fun same => apart whole (same.imp Eq.symm .inr)
  · rw [own, own']
    exact (or_iff_left fun ⟨i, _, same, _⟩ => whole i same).symm

theorem held_eq_self_iff : d.held = d ↔ d.Fits := by
  rcases int_or_held d with ⟨i, rfl⟩ | ⟨own, whole⟩
  · have ends : Int64.minValue.toInt ≤ Int64.maxValue.toInt := by decide
    have fits : Fits (.number i) ↔ Int64.minValue.toInt ≤ i ∧ i ≤ Int64.maxValue.toInt := by
      rw [Fits, Rat.den_intCast, Rat.num_intCast, forall_prop_of_true rfl, Numeral.fitsInt64,
        Bool.and_eq_true, decide_eq_true_eq, decide_eq_true_eq]
    rw [fits, held_int, number.injEq, Int.cast_inj, Double.toInt_clampInt64_eq]
    omega
  · refine iff_of_true own ?_
    cases d with
    | number q =>
      intro den
      exact absurd (congrArg number (Rat.coe_int_num_of_den_eq_one den).symm) (whole q.num)
    | truth _ | infinity _ | nan _ | text _ => trivial

end Datum

namespace Key

variable {k l : Key} {d e : Datum}

theorem tells_int (i : Int64) : (Key.int i).Tells (.number i.toInt) where
  datum := by
    rw [Datum.held_int, Double.clampInt64_toInt]
    rfl
  reduced _ other := by cases other

theorem tells_double (x : Double) : (ofDouble x).Tells x.datum := by
  unfold ofDouble
  split
  · rename_i integral
    rw [Double.datum_of_isIntegral integral]
    refine ⟨?_, fun _ other => by cases other⟩
    rw [Datum.held_int, ← Double.toInt64_of_isIntegral integral]
    rfl
  · rename_i fraction
    rw [Bool.not_eq_true] at fraction
    refine ⟨?_, fun _ same => by cases same; exact fraction⟩
    have own : (Key.double x.bits).datum = x.datum := rfl
    rw [own]
    cases told : x.datum with
    | number q =>
      refine (Datum.held_of_den_ne fun whole => Double.datum_ne_int fraction q.num ?_).symm
      rw [told, Rat.coe_int_num_of_den_eq_one whole]
    | truth _ | infinity _ | nan _ | text _ => rfl

theorem eq_of_datum (reduced : ∀ bits, k = .double bits → Double.isIntegral ⟨bits⟩ = false)
    (reduced' : ∀ bits, l = .double bits → Double.isIntegral ⟨bits⟩ = false)
    (same : k.datum = l.datum) : k = l := by
  cases k with
  | bool a => cases l with
    | bool b => cases same; rfl
    | double y => exact absurd same.symm (Double.datum_ne_truth ⟨y⟩ a)
    | int _ | text _ => cases same
  | int i => cases l with
    | int j =>
      have number : ((i.toInt : ℤ) : ℚ) = (j.toInt : ℤ) := Datum.number.inj same
      exact congrArg Key.int (Int64.toInt_inj.mp (by exact_mod_cast number))
    | double y => exact absurd same.symm (Double.datum_ne_int (reduced' y rfl) i.toInt)
    | bool _ | text _ => cases same
  | double x => cases l with
    | bool b => exact absurd same (Double.datum_ne_truth ⟨x⟩ b)
    | int j => exact absurd same (Double.datum_ne_int (reduced x rfl) j.toInt)
    | double y => cases Double.datum_inj (reduced x rfl) same; rfl
    | text s => exact absurd same (Double.datum_ne_text ⟨x⟩ s)
  | text s => cases l with
    | double y => exact absurd same.symm (Double.datum_ne_text ⟨y⟩ s)
    | text t => cases same; rfl
    | bool _ | int _ => cases same

/-- Keys are equal if what they tell of is, once integers are held. -/
theorem Tells.eq_iff (h : k.Tells d) (h' : l.Tells e) : k = l ↔ d.held = e.held := by
  rw [← h.datum, ← h'.datum]
  exact ⟨congrArg Key.datum, eq_of_datum h.reduced h'.reduced⟩

end Key

namespace Json

theorem Number.tells (n : Number) : Key.Tells
    (match n.int64? with
      | some i => .int i
      | none => Key.ofDouble n.toDouble) n.datum := by
  cases n with
  | natural n =>
    by_cases fits : Numeral.fitsInt64 n.toNat = true
    · have told := Key.tells_int (Int64.ofInt n.toNat)
      rw [Numeral.toInt_ofInt_of_fits fits] at told
      simp only [int64?, datum, fits, if_true]
      exact_mod_cast told
    · simp only [int64?, datum, fits]
      exact Key.tells_double _
  | negative i => exact Key.tells_int i
  | double x => exact Key.tells_double x

end Json

namespace Value

open Option (Rel)

theorem key?_ofDouble (x : Double) : (ofDouble x).key? = some (Key.ofDouble x) := by
  unfold ofDouble
  split
  · rename_i small
    obtain ⟨integral, _⟩ := Bool.and_eq_true_iff.mp small
    exact congrArg some (if_pos integral).symm
  · rfl

theorem keys_ofDouble (x : Double) : (match ofDouble x with
    | .list items => items.filterMap key?
    | v => v.key?.toList) = (ofDouble x).key?.toList := by
  have scalar : ofDouble x = .int x.toInt64 ∨ ofDouble x = .double x := by
    unfold ofDouble
    split
    · exact .inl rfl
    · exact .inr rfl
  rcases scalar with h | h <;> rw [h]

theorem tells_normalizeJson (j : Json) : Rel Key.Tells (normalizeJson j).key? j.datum? := by
  cases j with
  | null | array _ | object _ => exact .none
  | bool b => exact .some ⟨rfl, fun _ other => by cases other⟩
  | string s => exact .some ⟨rfl, fun _ other => by cases other⟩
  | number n =>
    have told := n.tells
    rw [normalizeJson, Json.datum?]
    cases held : n.int64? with
    | some i =>
      rw [held] at told
      exact .some told
    | none =>
      rw [held] at told
      simp only [key?_ofDouble]
      exact .some told

theorem tells_normalize (v : Value) : Rel Key.Tells v.normalize.key? v.datum? := by
  cases v with
  | null | list _ | object _ | connection _ _ _ => exact .none
  | bool b => exact .some ⟨rfl, fun _ other => by cases other⟩
  | text s => exact .some ⟨rfl, fun _ other => by cases other⟩
  | int i => exact .some (Key.tells_int i)
  | double x =>
    rw [normalize, key?_ofDouble]
    exact .some (Key.tells_double x)
  | json j => exact tells_normalizeJson j

theorem forall₂_filterMap {α β γ δ : Type} {R : γ → δ → Prop} {f : α → Option γ} {g : β → Option δ}
    {h : β → α} (related : ∀ b, Rel R (f (h b)) (g b)) (bs : List β) :
    List.Forall₂ R ((bs.map h).filterMap f) (bs.filterMap g) := by
  induction bs with
  | nil => exact .nil
  | cons b bs inductionHypothesis =>
    have here := related b
    rw [List.map_cons, List.filterMap_cons, List.filterMap_cons]
    generalize f (h b) = k at here
    generalize g b = d at here
    cases here with
    | none => exact inductionHypothesis
    | some told => exact .cons told inductionHypothesis

theorem forall₂_toList {γ δ : Type} {R : γ → δ → Prop} {k : Option γ} {d : Option δ}
    (related : Rel R k d) : List.Forall₂ R k.toList d.toList := by
  cases related with
  | none => exact .nil
  | some told => exact .cons told .nil

theorem normalizeItems_eq_map (items : List Value) : normalizeItems items = items.map normalize := by
  induction items with
  | nil => rfl
  | cons v items inductionHypothesis => rw [normalizeItems, inductionHypothesis, List.map_cons]

theorem normalizeJsonItems_eq_map (items : List Json) :
    normalizeJsonItems items = items.map normalizeJson := by
  induction items with
  | nil => rfl
  | cons j items inductionHypothesis => rw [normalizeJsonItems, inductionHypothesis, List.map_cons]

/-- Each key of a cell tells of one thing that the cell says. -/
theorem tells_keys (v : Value) : List.Forall₂ Key.Tells v.keys v.data := by
  have single (flat : v.keys = v.normalize.key?.toList) (alone : v.data = v.datum?.toList) :
      List.Forall₂ Key.Tells v.keys v.data := by
    rw [flat, alone]
    exact forall₂_toList (tells_normalize v)
  cases v with
  | list items =>
    rw [keys, normalize, normalizeItems_eq_map]
    exact forall₂_filterMap tells_normalize items
  | json j =>
    cases j with
    | array items =>
      rw [keys, normalize, normalizeJson, normalizeJsonItems_eq_map]
      exact forall₂_filterMap tells_normalizeJson items
    | null | bool _ | string _ | object _ => exact single rfl rfl
    | number n =>
      refine single ?_ rfl
      rw [keys, normalize, normalizeJson]
      cases n.int64? with
      | some i => rfl
      | none => exact keys_ofDouble n.toDouble
  | double x => exact single (keys_ofDouble x) rfl
  | null | bool _ | int _ | text _ | object _ | connection _ _ _ => exact single rfl rfl

/-- A cell has a key for each thing that it says. Two cells with one key each have the same if they
say the same, and also if they are integers past one end of 64 signed bits. A key is bound as the
cell that it stands for unless that is an integer beyond 64 signed bits. -/
theorem key_eq_iff (v w : Value) : v.keys.length = v.data.length ∧
    ∀ k l, v.keys = [k] → w.keys = [l] → ∃ d e, v.data = [d] ∧ w.data = [e] ∧
      (k = l ↔ d = e ∨ d.PastEnd e) ∧ (k.toValue.data = v.data ↔ d.Fits) := by
  refine ⟨(tells_keys v).length_eq, fun k l hv hw => ?_⟩
  have left := tells_keys v
  have right := tells_keys w
  rw [hv] at left
  rw [hw] at right
  obtain ⟨d, _, told, ⟨⟩, hd⟩ := List.forall₂_cons_left_iff.mp left
  obtain ⟨e, _, told', ⟨⟩, he⟩ := List.forall₂_cons_left_iff.mp right
  refine ⟨d, e, hd, he, (told.eq_iff told').trans Datum.held_eq_held_iff, ?_⟩
  rw [hd, Key.data_toValue, told.datum, List.singleton_inj]
  exact Datum.held_eq_self_iff

theorem key_eq_iff_three :
    (double (.ofInt 3)).keys = [.int 3] ∧
    (json (.array [.null, .number (.natural 3)])).keys = [.int 3] ∧
    (double (.ofInt 3)).keys.length = (double (.ofInt 3)).data.length ∧
    ∃ d e, (double (.ofInt 3)).data = [d] ∧
      (json (.array [.null, .number (.natural 3)])).data = [e] ∧
      (Key.int 3 = Key.int 3 ↔ d = e ∨ d.PastEnd e) ∧
      ((Key.int 3).toValue.data = (double (.ofInt 3)).data ↔ d.Fits) := by
  obtain ⟨same, faithful⟩ :=
    key_eq_iff (double (.ofInt 3)) (json (.array [.null, .number (.natural 3)]))
  exact ⟨rfl, rfl, same, faithful (.int 3) (.int 3) rfl rfl⟩

/-- Two numbers beyond 64 signed bits share a key, and it is bound as neither. -/
theorem key_of_two_numbers :
    (json (.number (.natural 9223372036854775808))).keys = [.int Int64.maxValue] ∧
      (json (.number (.natural 18446744073709551615))).keys = [.int Int64.maxValue] ∧
      (json (.number (.natural 9223372036854775808))).data = [.number 9223372036854775808] ∧
      (json (.number (.natural 18446744073709551615))).data = [.number 18446744073709551616] ∧
      (Key.int Int64.maxValue).toValue.data = [.number 9223372036854775807] := by
  have number {n : UInt64} {i : ℤ} (large : Numeral.fitsInt64 n.toNat = false)
      (integral : (Double.ofInt n.toNat).isIntegral = true)
      (whole : (Double.ofInt n.toNat).truncate = i) :
      (json (.number (.natural n))).data = [.number i] := by
    have told : (Json.Number.natural n).datum = .number i := by
      rw [Json.Number.datum, large, ← whole]
      exact Double.datum_of_isIntegral integral
    exact congrArg (fun d => [d]) told
  refine ⟨rfl, rfl, ?_, ?_, rfl⟩
  · exact_mod_cast number (n := 9223372036854775808) rfl rfl rfl
  · exact_mod_cast number (n := 18446744073709551615) rfl rfl rfl

end Value

end TreeQuery
