import TreeQuery.Proofs.Cursor
import TreeQuery.Proofs.Sql.Words

/-!
Plans that differ only in the values their statements bind, and two computations side by side that
bind values at the same positions.
-/

namespace TreeQuery

mutual

/-- Conditions that differ only in their values. How many there are, which of those that are
compared are null, and the names of raw parameters are the same. -/
inductive Condition.Variant : Condition → Condition → Prop
  | compare (c : ColumnRef) (op : CompareOp) {v w : Value} (null : v.isNull = w.isNull) :
    Condition.Variant (.compare c op v) (.compare c op w)
  | compareColumns (l : ColumnRef) (op : CompareOp) (r : ColumnRef) :
    Condition.Variant (.compareColumns l op r) (.compareColumns l op r)
  | within (c : ColumnRef) {vs ws : List Value} (length : vs.length = ws.length) :
    Condition.Variant (.within c vs) (.within c ws)
  | raw (sql : String) {ps qs : Fields Value}
    (names : ∀ n, n ∈ Fields.names ps ↔ n ∈ Fields.names qs) :
    Condition.Variant (.raw sql ps) (.raw sql qs)
  | group {cs ds : List Clause} (clauses : Clause.Variants cs ds) :
    Condition.Variant (.group cs) (.group ds)
  | exists (sql : String) {ps qs : Fields Value}
    (names : ∀ n, n ∈ Fields.names ps ↔ n ∈ Fields.names qs) :
    Condition.Variant (.exists sql ps) (.exists sql qs)

inductive Clause.Variants : List Clause → List Clause → Prop
  | nil : Clause.Variants [] []
  | cons (connective : Connective) (negated : Bool) {c d : Condition} {cs ds : List Clause}
    (condition : c.Variant d) (rest : Clause.Variants cs ds) :
    Clause.Variants (.mk connective negated c :: cs) (.mk connective negated d :: ds)

end

theorem Clause.Variants.isEmpty {cs ds : List Clause} (h : Clause.Variants cs ds) :
    cs.isEmpty = ds.isEmpty := by
  cases h <;> rfl

namespace Plan

/-- Arguments that differ at most in what the cursors of a keyset page say. -/
def SameArguments (keyed : Bool) (a b : Arguments) : Prop :=
  ∀ name, a.get? name = b.get? name ∨
    keyed = true ∧ (name = "after" ∨ name = "before") ∧ a.contains name = b.contains name

inductive JunctionBatch.Variant : JunctionBatch → JunctionBatch → Prop
  | mk (b : JunctionBatch) {join : Option (List Clause)}
    (joins : Option.Rel Clause.Variants b.join join) : JunctionBatch.Variant b { b with join }

inductive Junction.Variant : Junction → Junction → Prop
  | mk (j : Junction) {fromParent toChild : Option (List Clause)} {filter : List Clause}
    {batch : Option JunctionBatch}
    (parents : Option.Rel Clause.Variants j.fromParent fromParent)
    (children : Option.Rel Clause.Variants j.toChild toChild)
    (filters : Clause.Variants j.filter filter)
    (batches : Option.Rel JunctionBatch.Variant j.batch batch) :
    Junction.Variant j { j with fromParent, toChild, filter, batch }

inductive Table.Variant : Table → Table → Prop
  | mk (t : Table) {arguments : Arguments} {join : Option (List Clause)}
    {junction : Option Junction} {filter : List Clause}
    (given : SameArguments t.keyset?.isSome t.arguments arguments)
    (joins : Option.Rel Clause.Variants t.join join)
    (junctions : Option.Rel Junction.Variant t.junction junction)
    (filters : Clause.Variants t.filter filter) :
    Table.Variant t { t with arguments, join, junction, filter }

mutual

/-- Plans that differ only in the values their statements bind. -/
inductive Node.Variant : Node → Node → Prop
  | table {t t' : Table} {cs ds : List Node} (here : t.Variant t') (below : Node.Variants cs ds) :
    Node.Variant (.table t cs) (.table t' ds)
  | column (c : Column) : Node.Variant (.column c) (.column c)
  | composite (c : Composite) : Node.Variant (.composite c) (.composite c)
  | noop (fieldName : String) (location : Location) :
    Node.Variant (.noop fieldName location) (.noop fieldName location)

inductive Node.Variants : List Node → List Node → Prop
  | nil : Node.Variants [] []
  | cons {n m : Node} {ns ms : List Node} (first : n.Variant m) (rest : Node.Variants ns ms) :
    Node.Variants (n :: ns) (m :: ms)

end

/-- Pages that differ only in the values of their cursors. -/
inductive Paging.Variant : Paging → Paging → Prop
  | offset (p : OffsetPage) : Paging.Variant (.offset p) (.offset p)
  | keyset (p : KeysetPage) {cursor : Option (List Value)}
    (lengths : Option.Rel (fun vs ws => vs.length = ws.length) p.cursor cursor) :
    Paging.Variant (.keyset p) (.keyset { p with cursor })

section Paging

variable {t t' : Table}

theorem Table.Variant.keyset?_eq (h : t.Variant t') : t.keyset? = t'.keyset? := by
  cases h with
  | mk _ _ junctions _ =>
    unfold keyset?
    cases t.sortKey with
    | some key => rfl
    | none =>
      generalize t.junction = j at junctions
      cases junctions with
      | none => rfl
      | some same =>
        cases same
        rfl

theorem Table.Variant.offsetOrder?_eq (h : t.Variant t') : t.offsetOrder? = t'.offsetOrder? := by
  cases h with
  | mk _ _ junctions _ =>
    unfold offsetOrder?
    cases t.orderBy with
    | some order => rfl
    | none =>
      generalize t.junction = j at junctions
      cases junctions with
      | none => rfl
      | some same =>
        cases same
        rfl

theorem Table.cursor?_isSome {name : String} {c : Option String} (h : t.cursor? name = .ok c) :
    c.isSome = t.arguments.contains name := by
  unfold cursor? at h
  rw [Arguments.contains]
  cases found : t.arguments.get? name with
  | none =>
    rw [found] at h
    cases h
    rfl
  | some v =>
    rw [found] at h
    cases v <;> cases h
    rfl

theorem SameArguments.contains_eq {keyed : Bool} {a b : Arguments} (h : SameArguments keyed a b)
    (name : String) : a.contains name = b.contains name := by
  rcases h name with same | ⟨_, _, same⟩
  · rw [Arguments.contains, Arguments.contains, same]
  · exact same

theorem SameArguments.get?_eq {keyed : Bool} {a b : Arguments} (h : SameArguments keyed a b)
    {name : String} (other : keyed = false ∨ name ≠ "after" ∧ name ≠ "before") :
    a.get? name = b.get? name := by
  rcases h name with same | ⟨isKeyed, cursor, _⟩
  · exact same
  · rcases other with unkeyed | ⟨notAfter, notBefore⟩
    · cases unkeyed.symm.trans isKeyed
    · exact (cursor.elim notAfter notBefore).elim

theorem Table.count?_eq {name : String} (same : t.arguments.get? name = t'.arguments.get? name) :
    t.count? name = t'.count? name := by
  rw [count?, count?, Arguments.count?, Arguments.count?, same]

/-- Only whether there are cursors matters for the bounds of a page. -/
theorem Table.keysetBounds_same {l : Location} {first last : Option Nat}
    {after before after' before' : Option String} {r r' : Option Nat × Bool × Option String}
    (afters : after.isSome = after'.isSome) (befores : before.isSome = before'.isSome)
    (h : keysetBounds l first last after before = .ok r)
    (h' : keysetBounds l first last after' before' = .ok r') :
    r.1 = r'.1 ∧ r.2.1 = r'.2.1 ∧ r.2.2.isSome = r'.2.2.isSome := by
  cases first <;> cases last <;> cases after <;> cases after' <;> cases before <;> cases before' <;>
    cases afters <;> cases befores <;> cases h <;> cases h' <;> exact ⟨rfl, rfl, rfl⟩

theorem Table.Variant.keysetPage (h : t.Variant t') {key : SortKey} {label : String}
    {p p' : KeysetPage} (asked : t.keysetPage key label = .ok p)
    (asked' : t'.keysetPage key label = .ok p') : Paging.Variant (.keyset p) (.keyset p') := by
  have given : SameArguments t.keyset?.isSome t.arguments t'.arguments := by
    cases h
    assumption
  have location : t'.location = t.location := by
    cases h
    rfl
  have counts (name : String) (other : name ≠ "after" ∧ name ≠ "before") :
      t.count? name = t'.count? name := count?_eq (given.get?_eq (.inr other))
  obtain ⟨first, hfirst, asked⟩ := bind_eq_ok.mp asked
  obtain ⟨last, hlast, asked⟩ := bind_eq_ok.mp asked
  obtain ⟨after, hafter, asked⟩ := bind_eq_ok.mp asked
  obtain ⟨before, hbefore, asked⟩ := bind_eq_ok.mp asked
  obtain ⟨⟨count, backward, cursor⟩, bounds, asked⟩ := bind_eq_ok.mp asked
  obtain ⟨first', hfirst', asked'⟩ := bind_eq_ok.mp asked'
  obtain ⟨last', hlast', asked'⟩ := bind_eq_ok.mp asked'
  obtain ⟨after', hafter', asked'⟩ := bind_eq_ok.mp asked'
  obtain ⟨before', hbefore', asked'⟩ := bind_eq_ok.mp asked'
  obtain ⟨⟨count', backward', cursor'⟩, bounds', asked'⟩ := bind_eq_ok.mp asked'
  rw [← counts "first" (by decide), hfirst] at hfirst'
  rw [← counts "last" (by decide), hlast] at hlast'
  obtain rfl := Except.ok.inj hfirst'
  obtain rfl := Except.ok.inj hlast'
  rw [location] at bounds'
  have cursors {name : String} {c c' : Option String} (read : t.cursor? name = .ok c)
      (read' : t'.cursor? name = .ok c') : c.isSome = c'.isSome := by
    rw [cursor?_isSome read, cursor?_isSome read', given.contains_eq]
  obtain ⟨rfl, rfl, presence⟩ :=
    keysetBounds_same (cursors hafter hafter') (cursors hbefore hbefore') bounds bounds'
  cases cursor with
  | none =>
    cases cursor' with
    | some c' => cases presence
    | none =>
      cases asked
      cases asked'
      exact .keyset _ .none
  | some c =>
    cases cursor' with
    | none => cases presence
    | some c' =>
      obtain ⟨vs, read, made⟩ := bind_eq_ok.mp asked
      obtain ⟨vs', read', made'⟩ := bind_eq_ok.mp asked'
      cases made
      cases made'
      have length := Cursor.toKeyset_length (mapError_eq_ok.mp read)
      have length' := Cursor.toKeyset_length (mapError_eq_ok.mp read')
      exact .keyset _ (.some (length.trans length'.symm))

theorem Table.Variant.offsetPage_eq (h : t.Variant t') (unkeyed : t.keyset? = none)
    (order : OrderBy) (label : String) : t.offsetPage order label = t'.offsetPage order label := by
  cases h with
  | mk given _ _ _ =>
    rw [unkeyed] at given
    have same (name : String) : t.arguments.get? name = _ := given.get?_eq (.inl rfl)
    simp only [Table.offsetPage, Arguments.contains, count?, Arguments.count?, cursor?, same]
    rfl

theorem Table.Variant.paging (h : t.Variant t') {p p' : Paging} (asked : t.paging = .ok p)
    (asked' : t'.paging = .ok p') : p.Variant p' := by
  have keys := h.keyset?_eq
  have orders := h.offsetOrder?_eq
  unfold Table.paging at asked asked'
  rw [← keys, ← orders] at asked'
  cases keyed : t.keyset? with
  | some driven =>
    rcases driven with ⟨key, label⟩
    rw [keyed] at asked asked'
    obtain ⟨q, page, rfl⟩ := map_eq_ok.mp asked
    obtain ⟨q', page', rfl⟩ := map_eq_ok.mp asked'
    exact h.keysetPage page page'
  | none =>
    rw [keyed] at asked asked'
    cases ordered : t.offsetOrder? with
    | none =>
      rw [ordered] at asked
      cases asked
    | some driven =>
      rcases driven with ⟨order, label⟩
      rw [ordered] at asked asked'
      obtain ⟨q, page, rfl⟩ := map_eq_ok.mp asked
      obtain ⟨q', page', rfl⟩ := map_eq_ok.mp asked'
      rw [← h.offsetPage_eq keyed, page] at page'
      obtain rfl := Except.ok.inj page'
      exact .offset q

end Paging

end Plan

namespace Sql

open Worded (words map)

/-- A placeholder without its value. -/
def Token.blank : Token → Token
  | .param position _ => .param position .null
  | t => t

theorem blank_fixesPlain : FixesPlain Token.blank := by
  intro t plain
  cases t with
  | param position v => cases plain
  | _ => rfl

theorem Token.text_blank (fl : Flavor) (t : Token) : t.blank.text fl = t.text fl := by
  cases t <;> rfl

/-- The same but for the values of placeholders. -/
def Alike {α : Type} [Worded α] (x y : α) : Prop := map Token.blank x = map Token.blank y

namespace Alike

variable {α : Type} [Worded α]

theorem refl (x : α) : Alike x x := rfl

theorem append {l m l' m' : List α} (h : Alike l l') (h' : Alike m m') :
    Alike (l ++ m) (l' ++ m') := by
  rw [Alike, map_append, map_append, h, h']

theorem cons {x y : α} {l m : List α} (h : Alike x y) (h' : Alike l m) :
    Alike (x :: l) (y :: m) := by
  rw [Alike, map_cons, map_cons, h, h']

theorem one {x y : α} (h : Alike x y) : Alike [x] [y] := h.cons (refl [])

theorem surround {f g : Fragment} (h : Alike f g) (before after : Fragment) :
    Alike (before ++ f ++ after) (before ++ g ++ after) := ((refl before).append h).append (refl after)

theorem between {fs gs : List Fragment} (h : Alike fs gs) (t : Token) :
    Alike (between t fs) (between t gs) := by
  rw [Alike, map_between, map_between, h]

theorem pastCursor {cs ds : List CursorTerm} (h : Alike cs ds) :
    Alike (pastCursor cs) (pastCursor ds) := by
  rw [Alike, map_pastCursor blank_fixesPlain, map_pastCursor blank_fixesPlain, h]

theorem part {p q p' q' : Part} (h : Alike p p') (h' : Alike q q') : Alike (p ++ q) (p' ++ q') := by
  rw [Alike, map_part_append, map_part_append, h, h']

end Alike

/-- Two computations that, where both succeed, bind as many values each, with related results. -/
def Agree {α β : Type} (R : α → β → Prop) (m : Binder α) (m' : Binder β) : Prop :=
  ∀ (ps ps' qs qs' : Params) (x : α) (y : β),
    Fields.names ps.entries = Fields.names ps'.entries →
    m.run ps = .ok (x, qs) → m'.run ps' = .ok (y, qs') →
    R x y ∧ Fields.names qs.entries = Fields.names qs'.entries

namespace Agree

variable {α β γ δ : Type} {R : α → β → Prop} {S : γ → δ → Prop}

theorem pure {x : α} {y : β} (h : R x y) : Agree R (pure x) (pure y) := by
  intro ps ps' qs qs' _ _ names ran ran'
  obtain ⟨rfl, rfl⟩ := run_pure_ok.mp ran
  obtain ⟨rfl, rfl⟩ := run_pure_ok.mp ran'
  exact ⟨h, names⟩

theorem throw (e : SqlError) (m : Binder β) : Agree R (throw e) m := by
  intro ps ps' qs qs' x y _ ran
  exact (run_throw_ok.mp ran).elim

theorem bind {m : Binder α} {m' : Binder β} {f : α → Binder γ} {g : β → Binder δ}
    (first : Agree R m m') (later : ∀ x y, R x y → Agree S (f x) (g y)) :
    Agree S (m >>= f) (m' >>= g) := by
  intro ps ps' qs qs' x y names ran ran'
  obtain ⟨a, ts, ran, rest⟩ := run_bind_ok.mp ran
  obtain ⟨b, ts', ran', rest'⟩ := run_bind_ok.mp ran'
  obtain ⟨related, names⟩ := first _ _ _ _ a b names ran ran'
  exact later a b related _ _ _ _ x y names rest rest'

theorem lift {w : Except SqlError α} {w' : Except SqlError β}
    (h : ∀ x y, w = .ok x → w' = .ok y → R x y) :
    Agree R (liftM w : Binder α) (liftM w' : Binder β) := by
  intro ps ps' qs qs' x y names ran ran'
  obtain ⟨done, rfl⟩ := run_lift_ok.mp ran
  obtain ⟨done', rfl⟩ := run_lift_ok.mp ran'
  exact ⟨h x y done done', names⟩

theorem lift_same (w : Except SqlError α) :
    Agree (fun x y => x = y) (liftM w : Binder α) (liftM w : Binder α) :=
  lift (fun _ _ done done' => Except.ok.inj (done.symm.trans done'))

theorem ite {c c' : Prop} [Decidable c] [Decidable c'] (same : c ↔ c') {m n : Binder α}
    {m' n' : Binder β} (yes : c → Agree R m m') (no : ¬c → Agree R n n') :
    Agree R (if c then m else n) (if c' then m' else n') := by
  by_cases h : c
  · rw [if_pos h, if_pos (same.mp h)]
    exact yes h
  · rw [if_neg h, if_neg (fun h' => h (same.mpr h'))]
    exact no h

end Agree

end Sql

end TreeQuery
