import TreeQuery.Proofs.Sql.ClauseTruth

/-!
When operands in a row keep together. Formulas are compared up to the order in which equal
connectives are taken. A part of a row is a unit there if it reads as if it stood in parentheses,
which depends on whether it has an `OR` in it and an `AND` beside it.
-/

namespace TreeQuery.Sql

/-- A formula without regard to which of several equal connectives comes first. -/
inductive Grouping where
  | atom (words : Fragment)
  | not (g : Grouping)
  | joined (c : Connective) (gs : List Grouping)

/-- What a connective joins, one part if it is not the outermost connective. -/
def Grouping.parts (c : Connective) : Grouping → List Grouping
  | .joined c' gs => if c' = c then gs else [.joined c' gs]
  | g => [g]

theorem Grouping.parts_cases (c : Connective) (g : Grouping) :
    g = .joined c (g.parts c) ∨ g.parts c = [g] := by
  cases g with
  | atom | not => exact .inr rfl
  | joined c' gs =>
    rw [parts]
    split
    · rename_i same
      exact .inl (by rw [same])
    · exact .inr rfl

namespace Formula

def grouping : Formula → Grouping
  | .atom words => .atom words
  | .not p => .not p.grouping
  | .and p q => .joined .and (p.grouping.parts .and ++ q.grouping.parts .and)
  | .or p q => .joined .or (p.grouping.parts .or ++ q.grouping.parts .or)

def parts (c : Connective) (p : Formula) : List Grouping := p.grouping.parts c

def Alike (p q : Formula) : Prop := p.grouping = q.grouping

/-- Both connectives, so that what holds of either is said once. -/
def join : Connective → Formula → Formula → Formula
  | .and => .and
  | .or => .or

variable {p p' q q' : Formula} {c : Connective}

theorem grouping_join (c : Connective) (p q : Formula) :
    (join c p q).grouping = .joined c (p.parts c ++ q.parts c) := by cases c <;> rfl

theorem parts_join (c : Connective) (p q : Formula) :
    (join c p q).parts c = p.parts c ++ q.parts c := by
  rw [parts, grouping_join, Grouping.parts, if_pos rfl]

/-- A connective joins at least two parts. -/
def Wide (p : Formula) : Prop := ∀ c gs, p.grouping = .joined c gs → 2 ≤ gs.length

theorem Wide.parts_pos (wide : p.Wide) (c : Connective) : 1 ≤ (p.parts c).length := by
  rcases p.grouping.parts_cases c with here | here
  · exact Nat.le_of_succ_le (wide c _ here)
  · exact Nat.le_of_eq (congrArg List.length here).symm

theorem Wide.join (left : p.Wide) (right : q.Wide) (c : Connective) : (join c p q).Wide := by
  rintro c' gs same
  rw [grouping_join] at same
  obtain ⟨_, rfl⟩ := Grouping.joined.inj same
  have first := left.parts_pos c
  have second := right.parts_pos c
  rw [List.length_append]
  omega

theorem wide (p : Formula) : p.Wide := by
  induction p with
  | atom | not =>
    rintro c gs same
    cases same
  | and p q left right => exact left.join right .and
  | or p q left right => exact left.join right .or

theorem parts_eq_singleton {g : Grouping} (single : p.parts c = [g]) : p.grouping = g := by
  rcases p.grouping.parts_cases c with here | here
  · have two := p.wide c _ here
    have one : (p.grouping.parts c).length = 1 := congrArg List.length single
    omega
  · exact List.singleton_inj.mp (here.symm.trans single)

/-- Formulas are alike if a connective joins the same in them. -/
theorem parts_inj : p.parts c = q.parts c ↔ p.Alike q := by
  refine ⟨?_, fun same => congrArg (Grouping.parts c) same⟩
  intro same
  rcases p.grouping.parts_cases c with left | left
  · rcases q.grouping.parts_cases c with right | right
    · have parts : p.grouping.parts c = q.grouping.parts c := same
      rw [Alike, left, parts]
      exact right.symm
    · exact parts_eq_singleton (same.trans right)
  · exact (parts_eq_singleton (same.symm.trans left)).symm

theorem join_left_inj : (join c p q).Alike (join c p' q) ↔ p.Alike p' := by
  rw [← parts_inj (c := c), parts_join, parts_join, List.append_left_inj, parts_inj]

theorem join_right_inj : (join c p q).Alike (join c p q') ↔ q.Alike q' := by
  rw [← parts_inj (c := c), parts_join, parts_join, List.append_right_inj, parts_inj]

theorem not_inj : p.not.Alike q.not ↔ p.Alike q := by
  rw [Alike, grouping, grouping, Grouping.not.injEq]
  rfl

theorem join_assoc (c : Connective) (p q r : Formula) :
    (join c (join c p q) r).Alike (join c p (join c q r)) := by
  rw [← parts_inj (c := c), parts_join, parts_join, parts_join, parts_join, List.append_assoc]

section Truth

variable (truth : Fragment → Option Bool)

def connect : Connective → Option Bool → Option Bool → Option Bool
  | .and => conjoin
  | .or => disjoin

mutual

/-- The truth of a formula out of its grouping. -/
def groupTruth : Grouping → Option Bool
  | .atom words => truth words
  | .not g => (groupTruth g).map (fun b => !b)
  | .joined c gs => joinedTruth c gs

def joinedTruth (c : Connective) : List Grouping → Option Bool
  | [] => some (c = .and)
  | g :: gs => connect c (groupTruth g) (joinedTruth c gs)

end

theorem connect_assoc (c : Connective) (x y z : Option Bool) :
    connect c (connect c x y) z = connect c x (connect c y z) := by
  cases c with
  | and => exact conjoin_assoc x y z
  | or => exact disjoin_assoc x y z

theorem joinedTruth_append (c : Connective) (gs hs : List Grouping) :
    joinedTruth truth c (gs ++ hs) =
      connect c (joinedTruth truth c gs) (joinedTruth truth c hs) := by
  induction gs with
  | nil => cases c <;> rfl
  | cons g gs inductionHypothesis =>
    rw [List.cons_append, joinedTruth, joinedTruth, inductionHypothesis, connect_assoc]

theorem joinedTruth_parts (c : Connective) (g : Grouping) :
    joinedTruth truth c (g.parts c) = groupTruth truth g := by
  rcases g.parts_cases c with here | here
  · rw [here, groupTruth, ← here]
  · rw [here, joinedTruth, joinedTruth]
    cases c with
    | and => exact conjoin_true _
    | or => exact disjoin_false _

theorem groupTruth_grouping (p : Formula) : groupTruth truth p.grouping = p.eval truth := by
  induction p with
  | atom words => rfl
  | not p inductionHypothesis => rw [grouping, groupTruth, inductionHypothesis, eval]
  | and p q left right =>
    rw [grouping, groupTruth, joinedTruth_append, joinedTruth_parts, joinedTruth_parts, left, right]
    rfl
  | or p q left right =>
    rw [grouping, groupTruth, joinedTruth_append, joinedTruth_parts, joinedTruth_parts, left, right]
    rfl

/-- Alike formulas are true of the same rows. -/
theorem Alike.eval_eq (same : p.Alike q) : p.eval truth = q.eval truth := by
  rw [← groupTruth_grouping, ← groupTruth_grouping, same]

end Truth

/-- How many alternatives there are. -/
def width (p : Formula) : Nat := (p.parts .or).length

theorem width_pos (p : Formula) : 1 ≤ p.width := p.wide.parts_pos .or

theorem width_or (p q : Formula) : (p.or q).width = p.width + q.width := List.length_append

theorem Alike.width_eq (same : p.Alike q) : p.width = q.width :=
  congrArg List.length (parts_inj.mpr same)

section Chains

variable {alternatives : Option Formula} {ops A B : List (Connective × Formula)}

theorem chain_or (a p : Formula) (ops : List (Connective × Formula)) :
    (chain (some a) p ops).Alike (.or a (chain none p ops)) := by
  induction ops generalizing a p with
  | nil => rfl
  | cons o ops inductionHypothesis =>
    obtain ⟨connective, q⟩ := o
    cases connective with
    | and => exact inductionHypothesis a (p.and q)
    | or =>
      have here := inductionHypothesis (a.or p) q
      have there : (Formula.or a (chain (some p) q ops)).Alike (.or a (.or p (chain none q ops))) :=
        join_right_inj (c := .or).mpr (inductionHypothesis p q)
      exact here.trans ((join_assoc .or a p _).trans there.symm)

/-- What has been read before some operands, once others have been read. -/
theorem chain_append (A : List (Connective × Formula)) (alternatives : Option Formula)
    (p : Formula) : ∃ alternatives' p', ∀ B,
      chain alternatives p (A ++ B) = chain alternatives' p' B := by
  induction A generalizing alternatives p with
  | nil => exact ⟨alternatives, p, fun _ => rfl⟩
  | cons o A inductionHypothesis =>
    obtain ⟨connective, q⟩ := o
    cases connective with
    | and => exact inductionHypothesis alternatives (p.and q)
    | or => exact inductionHypothesis (some (after alternatives p)) q

theorem chain_append_or (A : List (Connective × Formula)) (alternatives : Option Formula)
    (p q : Formula) (B : List (Connective × Formula)) :
    chain alternatives p (A ++ (.or, q) :: B) = chain (some (chain alternatives p A)) q B := by
  induction A generalizing alternatives p with
  | nil => rfl
  | cons o A inductionHypothesis =>
    obtain ⟨connective, r⟩ := o
    cases connective with
    | and => exact inductionHypothesis alternatives (p.and r)
    | or => exact inductionHypothesis (some (after alternatives p)) r

/-- Without an `OR`, operands are one conjunction for those that follow. -/
theorem chain_append_joined (joined : ∀ o ∈ A, o.1 = .and) (alternatives : Option Formula)
    (p : Formula) (B : List (Connective × Formula)) :
    chain alternatives p (A ++ B) = chain alternatives (chain none p A) B := by
  induction A generalizing p with
  | nil => rfl
  | cons o A inductionHypothesis =>
    obtain ⟨connective, q⟩ := o
    obtain ⟨first, others⟩ := List.forall_mem_cons.mp joined
    cases first
    exact inductionHypothesis others (p.and q)

/-- Chains that start alike are alike, and no others. -/
theorem chain_inj : (chain alternatives p ops).Alike (chain alternatives p' ops) ↔ p.Alike p' := by
  have alone : (chain none p ops).Alike (chain none p' ops) ↔ p.Alike p' := by
    induction ops generalizing p p' with
    | nil => exact Iff.rfl
    | cons o ops inductionHypothesis =>
      obtain ⟨connective, q⟩ := o
      cases connective with
      | and => exact inductionHypothesis.trans (join_left_inj (c := .and))
      | or =>
        have here : (chain none p ((.or, q) :: ops)).Alike (.or p (chain none q ops)) :=
          chain_or p q ops
        have there : (chain none p' ((.or, q) :: ops)).Alike (.or p' (chain none q ops)) :=
          chain_or p' q ops
        rw [Alike, here, there]
        exact join_left_inj (c := .or)
  cases alternatives with
  | none => exact alone
  | some a =>
    rw [Alike, chain_or a p ops, chain_or a p' ops]
    exact (join_right_inj (c := .or)).trans alone

theorem chain_joined (joined : ∀ o ∈ A, o.1 = .and) (p q : Formula) :
    (chain none (p.and q) A).Alike (p.and (chain none q A)) := by
  induction A generalizing q with
  | nil => rfl
  | cons o A inductionHypothesis =>
    obtain ⟨connective, r⟩ := o
    obtain ⟨first, others⟩ := List.forall_mem_cons.mp joined
    cases first
    have regrouped : (chain none ((p.and q).and r) A).Alike (chain none (p.and (q.and r)) A) :=
      chain_inj.mpr (join_assoc .and p q r)
    exact regrouped.trans (inductionHypothesis others (q.and r))

/-- Alternatives from before count once each, whatever follows. -/
theorem width_chain (alternatives : Option Formula) (p : Formula)
    (B : List (Connective × Formula)) : (chain alternatives p B).width =
      (alternatives.map width).getD 0 + (chain none p B).width := by
  cases alternatives with
  | none => exact (Nat.zero_add _).symm
  | some a => rw [(chain_or a p B).width_eq, width_or, Option.map_some, Option.getD_some]

/-- Nothing has fewer alternatives in a chain than a conjunction. -/
theorem width_chain_le (p q r : Formula) (B : List (Connective × Formula)) :
    (chain none (p.and q) B).width ≤ (chain none r B).width := by
  induction B generalizing p q r with
  | nil => exact width_pos r
  | cons o B inductionHypothesis =>
    obtain ⟨connective, s⟩ := o
    cases connective with
    | and => exact inductionHypothesis (p.and q) s (r.and s)
    | or =>
      have left : (chain none (p.and q) ((.or, s) :: B)).width = 1 + (chain none s B).width :=
        width_chain (some (p.and q)) s B
      have right : (chain none r ((.or, s) :: B)).width = r.width + (chain none s B).width :=
        width_chain (some r) s B
      have positive := width_pos r
      omega

/-- An `OR` among operands adds an alternative to what stands around them. -/
theorem width_lt_of_or (alternatives : Option Formula) (p q : Formula)
    (A A' : List (Connective × Formula)) {r : Formula}
    (least : ∀ s, (chain none r B).width ≤ (chain none s B).width) :
    (chain alternatives r B).width <
      (chain alternatives p (A ++ (.or, q) :: A' ++ B)).width := by
  rw [List.append_assoc, List.cons_append, chain_append_or, width_chain alternatives r,
    width_chain (some _), Option.map_some, Option.getD_some, width_chain alternatives p A]
  obtain ⟨alternatives', q', same⟩ := chain_append A' none q
  rw [same, width_chain alternatives' q']
  have positive := width_pos (chain none p A)
  have least := least q'
  omega

theorem chain_after (alternatives : Option Formula) (p : Formula)
    (A : List (Connective × Formula)) :
    (chain alternatives p A).Alike (after alternatives (chain none p A)) := by
  cases alternatives with
  | none => rfl
  | some a => exact chain_or a p A

theorem chain_alternatives_inj {a a' : Formula} :
    (chain (some a) p B).Alike (chain (some a') p B) ↔ a.Alike a' := by
  rw [Alike, chain_or a p B, chain_or a' p B]
  exact join_left_inj (c := .or)

end Chains

end Formula

/-- Operands in a row with connectives between them. -/
structure Row where
  first : Formula
  rest : List (Connective × Formula)

namespace Row

open Formula

def formula (r : Row) : Formula := chain none r.first r.rest

/-- The row as one operand. -/
def unit (r : Row) : Row := ⟨r.formula, []⟩

def append (r : Row) (c : Connective) (s : Row) : Row := ⟨r.first, r.rest ++ (c, s.first) :: s.rest⟩

/-- A row behind a connective. -/
def behind : Option (Connective × Row) → List (Connective × Formula)
  | none => []
  | some (c, s) => (c, s.first) :: s.rest

/-- A row between others, with the connectives beside it. -/
def between (before : Option (Row × Connective)) (r : Row) (after : Option (Connective × Row)) :
    Row :=
  match before with
  | none => ⟨r.first, r.rest ++ behind after⟩
  | some (b, c) => ⟨b.first, b.rest ++ (c, r.first) :: (r.rest ++ behind after)⟩

/-- An `AND` on either side. -/
def Beside (before : Option (Row × Connective)) (after : Option (Connective × Row)) : Prop :=
  before.map Prod.snd = some .and ∨ after.map Prod.fst = some .and

variable {before : Option (Row × Connective)} {r : Row} {after : Option (Connective × Row)}

/-- What stands before a row: alternatives, and a conjunction that its first operand goes into. -/
theorem formula_between (before : Option (Row × Connective)) :
    ∃ alternatives lead, (∀ (r : Row) (after : Option (Connective × Row)),
      (between before r after).formula =
        chain alternatives (lead r.first) (r.rest ++ behind after)) ∧
      if before.map Prod.snd = some .and then ∃ p, lead = Formula.and p else lead = id := by
  obtain _ | ⟨b, c⟩ := before
  · exact ⟨none, id, fun _ _ => rfl, rfl⟩
  · obtain ⟨alternatives, p, same⟩ := chain_append b.rest none b.first
    cases c with
    | and => exact ⟨alternatives, p.and, fun _ _ => same _, p, rfl⟩
    | or => exact ⟨some (Formula.after alternatives p), id, fun _ _ => same _, rfl⟩

/-- Beside an `AND`, a row in parentheses is part of a conjunction. -/
theorem width_unit_le {lead : Formula → Formula}
    (kind : if before.map Prod.snd = some .and then ∃ p, lead = Formula.and p else lead = id)
    (beside : Beside before after) (p q : Formula) :
    (chain none (lead p) (behind after)).width ≤ (chain none q (behind after)).width := by
  by_cases ahead : before.map Prod.snd = some .and
  · rw [if_pos ahead] at kind
    obtain ⟨conjunct, rfl⟩ := kind
    exact width_chain_le conjunct p q _
  · obtain ⟨⟨c, s⟩, rfl, here⟩ := Option.map_eq_some_iff.mp (beside.resolve_left ahead)
    cases here
    exact width_chain_le (lead p) s.first (q.and s.first) s.rest

/-- A row without an `OR` goes into a conjunction as it is. -/
theorem alike_unit_of_joined {alternatives : Option Formula} {lead : Formula → Formula}
    (kind : if before.map Prod.snd = some .and then ∃ p, lead = Formula.and p else lead = id)
    (joined : ∀ o ∈ r.rest, o.1 = .and) (B : List (Connective × Formula)) :
    (chain alternatives (lead r.first) (r.rest ++ B)).Alike
      (chain alternatives (lead r.formula) B) := by
  rw [chain_append_joined joined]
  apply chain_inj.mpr
  split at kind
  · obtain ⟨conjunct, rfl⟩ := kind
    exact chain_joined joined conjunct r.first
  · cases kind
    rfl

theorem alike_unit_of_apart {alternatives : Option Formula}
    (apart : after.map Prod.fst ≠ some .and) :
    (chain alternatives r.first (r.rest ++ behind after)).Alike
      (chain alternatives r.formula (behind after)) := by
  cases after with
  | none =>
    rw [behind, List.append_nil]
    exact chain_after alternatives r.first r.rest
  | some a =>
    obtain ⟨c, s⟩ := a
    cases c with
    | and => exact absurd rfl apart
    | or =>
      rw [behind, chain_append_or]
      exact chain_alternatives_inj.mpr (chain_after alternatives r.first r.rest)

/-- A row between others keeps together if it has no `OR` in it or no `AND` beside it. -/
theorem alike_unit_iff :
    (between before r after).formula.Alike (between before r.unit after).formula ↔
      (∀ o ∈ r.rest, o.1 = .and) ∨ ¬ Beside before after := by
  obtain ⟨alternatives, lead, same, kind⟩ := formula_between before
  rw [same, same]
  constructor
  · intro alike
    by_contra loose
    obtain ⟨mixed, beside⟩ := not_or.mp loose
    obtain ⟨⟨c, q⟩, member, other⟩ : ∃ o ∈ r.rest, o.1 ≠ .and := by simpa using mixed
    obtain ⟨A, A', split⟩ := List.append_of_mem member
    cases c with
    | and => exact other rfl
    | or =>
      have wider := width_lt_of_or alternatives (lead r.first) q A A'
        (width_unit_le kind (not_not.mp beside) r.formula)
      rw [← split] at wider
      exact absurd alike.width_eq.symm (Nat.ne_of_lt wider)
  · rintro (joined | apart)
    · exact alike_unit_of_joined kind joined (behind after)
    · obtain ⟨before', after'⟩ := not_or.mp apart
      rw [if_neg before'] at kind
      cases kind
      exact alike_unit_of_apart after'

/-- Only what is put in its place makes a difference to a row. -/
theorem alike_between_iff {p q : Formula} : (between before ⟨p, []⟩ after).formula.Alike
    (between before ⟨q, []⟩ after).formula ↔ p.Alike q := by
  obtain ⟨alternatives, lead, same, kind⟩ := formula_between before
  rw [same, same, List.nil_append]
  apply chain_inj.trans
  split at kind
  · obtain ⟨conjunct, rfl⟩ := kind
    exact join_right_inj (c := .and)
  · cases kind
    exact Iff.rfl

/-- Between others that are themselves between others. -/
theorem between_between (front before : Option (Row × Connective))
    (after back : Option (Connective × Row)) : ∃ before' after',
      before'.map Prod.snd = (before.map Prod.snd).or (front.map Prod.snd) ∧
      after'.map Prod.fst = (after.map Prod.fst).or (back.map Prod.fst) ∧
      ∀ r, between front (between before r after) back = between before' r after' := by
  obtain ⟨after', connectives, same⟩ : ∃ after', after'.map Prod.fst =
      (after.map Prod.fst).or (back.map Prod.fst) ∧
        behind after' = behind after ++ behind back := by
    obtain _ | ⟨c, s⟩ := after
    · exact ⟨back, rfl, rfl⟩
    · exact ⟨some (c, ⟨s.first, s.rest ++ behind back⟩), rfl, rfl⟩
  obtain _ | ⟨b, c⟩ := before
  · refine ⟨front, after', by simp, connectives, fun r => ?_⟩
    cases front <;> simp [between, same]
  · obtain _ | ⟨d, e⟩ := front
    · exact ⟨some (b, c), after', rfl, connectives, fun r => by simp [between, same]⟩
    · exact ⟨some (⟨d.first, d.rest ++ (e, b.first) :: b.rest⟩, c), after', rfl, connectives,
        fun r => by simp [between, same]⟩

end Row

end TreeQuery.Sql
