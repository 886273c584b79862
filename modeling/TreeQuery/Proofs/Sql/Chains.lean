import Mathlib.Data.List.SplitBy
import TreeQuery.Proofs.Sql.ConditionText

/-!
Operands in a row with connectives between them. They are read as the disjunction of the longest
runs that are joined by `AND`, however the row was put together.
-/

namespace TreeQuery.Sql

open Scanning

namespace Formula

theorem conjoin_assoc (a b c : Option Bool) :
    conjoin (conjoin a b) c = conjoin a (conjoin b c) := by
  rcases a with _ | (_ | _) <;> rcases b with _ | (_ | _) <;> rcases c with _ | (_ | _) <;> rfl

theorem disjoin_assoc (a b c : Option Bool) :
    disjoin (disjoin a b) c = disjoin a (disjoin b c) := by
  rcases a with _ | (_ | _) <;> rcases b with _ | (_ | _) <;> rcases c with _ | (_ | _) <;> rfl

theorem conjoin_true (a : Option Bool) : conjoin a (some true) = a := by
  rcases a with _ | (_ | _) <;> rfl

theorem disjoin_false (a : Option Bool) : disjoin a (some false) = a := by
  rcases a with _ | (_ | _) <;> rfl

/-- A formula after the alternatives before it. -/
def after (alternatives : Option Formula) (p : Formula) : Formula :=
  match alternatives with
  | none => p
  | some a => .or a p

/-- What operands come to that go on from alternatives and a conjunction. -/
def chain (alternatives : Option Formula) (conjuncts : Formula) :
    List (Connective × Formula) → Formula
  | [] => after alternatives conjuncts
  | (.and, q) :: r => chain alternatives (.and conjuncts q) r
  | (.or, q) :: r => chain (some (after alternatives conjuncts)) q r

end Formula

open Formula (chain after)

/-- All of some conditions hold. -/
def allTruth (vs : List (Option Bool)) : Option Bool := vs.foldr Formula.conjoin (some true)

/-- One of some conditions holds. -/
def anyTruth (vs : List (Option Bool)) : Option Bool := vs.foldr Formula.disjoin (some false)

/-- The truth of conditions in a row: one of the longest runs joined by `AND` holds. -/
def runsTruth (vs : List (Connective × Option Bool)) : Option Bool :=
  anyTruth ((vs.splitBy (fun _ v => v.1 = .and)).map (fun run => allTruth (run.map Prod.snd)))

theorem allTruth_concat (vs : List (Option Bool)) (v : Option Bool) :
    allTruth (vs ++ [v]) = Formula.conjoin (allTruth vs) v := by
  induction vs with
  | nil => exact Formula.conjoin_true v
  | cons w vs inductionHypothesis =>
    change Formula.conjoin w (allTruth (vs ++ [v])) = _
    rw [inductionHypothesis, ← Formula.conjoin_assoc]
    rfl

section Runs

variable {v w : Connective × Option Bool} {run vs : List (Connective × Option Bool)}

theorem isChain_run (joined : ∀ w ∈ run, w.1 = .and) :
    (v :: run).IsChain (fun _ w => decide (w.1 = .and)) := by
  induction run generalizing v with
  | nil => exact List.isChain_singleton v
  | cons w run inductionHypothesis =>
    obtain ⟨first, joined⟩ := List.forall_mem_cons.mp joined
    exact List.isChain_cons_cons.mpr ⟨decide_eq_true first, inductionHypothesis joined⟩

theorem runsTruth_run (joined : ∀ w ∈ run, w.1 = .and) :
    runsTruth (v :: run) = allTruth ((v :: run).map Prod.snd) := by
  rw [runsTruth, List.splitBy_of_isChain (by simp) (isChain_run joined)]
  exact Formula.disjoin_false _

/-- An `OR` ends the run before it. -/
theorem runsTruth_append (joined : ∀ w ∈ run, w.1 = .and) (other : w.1 = .or) :
    runsTruth (v :: run ++ w :: vs) =
      Formula.disjoin (allTruth ((v :: run).map Prod.snd)) (runsTruth (w :: vs)) := by
  have apart : (v :: run ++ w :: vs).splitBy (fun _ w => decide (w.1 = .and)) =
      (v :: run) :: (w :: vs).splitBy (fun _ w => decide (w.1 = .and)) := by
    rw [List.splitBy_append_cons vs (by simp [other]),
      List.splitBy_of_isChain (by simp) (isChain_run joined)]
    rfl
  rw [runsTruth, apart, List.map_cons]
  rfl

end Runs

section Truth

variable (truth : Fragment → Option Bool)

/-- Operands with their truth in place. -/
def valued (ops : List (Connective × Formula)) : List (Connective × Option Bool) :=
  ops.map (fun o => (o.1, o.2.eval truth))

theorem eval_after (alternatives : Option Formula) (p : Formula) :
    (after alternatives p).eval truth =
      Formula.disjoin ((alternatives.map (Formula.eval truth)).getD (some false))
        (p.eval truth) := by
  cases alternatives <;> rfl

/-- A chain that goes on from a run adds its runs to the alternatives before. -/
theorem eval_chain_run (ops : List (Connective × Formula)) (alternatives : Option Formula)
    {conjuncts : Formula} (v : Connective × Option Bool) (run : List (Connective × Option Bool))
    (joined : ∀ w ∈ run, w.1 = .and)
    (value : conjuncts.eval truth = allTruth ((v :: run).map Prod.snd)) :
    (chain alternatives conjuncts ops).eval truth =
      Formula.disjoin ((alternatives.map (Formula.eval truth)).getD (some false))
        (runsTruth (v :: run ++ valued truth ops)) := by
  induction ops generalizing alternatives conjuncts v run with
  | nil =>
    have whole : v :: run ++ valued truth [] = v :: run := List.append_nil _
    rw [chain, eval_after, value, whole, runsTruth_run joined]
  | cons o ops inductionHypothesis =>
    obtain ⟨connective, q⟩ := o
    cases connective with
    | and =>
      have longer : ∀ w ∈ run ++ [(.and, q.eval truth)], w.1 = .and :=
        List.forall_mem_append.mpr ⟨joined, by simp⟩
      have value' : (conjuncts.and q).eval truth =
          allTruth ((v :: (run ++ [(.and, q.eval truth)])).map Prod.snd) := by
        rw [← List.cons_append, List.map_append, List.map_singleton, allTruth_concat, ← value]
        rfl
      rw [chain, inductionHypothesis alternatives v _ longer value']
      simp [valued]
    | or =>
      have alone : q.eval truth = allTruth ([(Connective.or, q.eval truth)].map Prod.snd) :=
        (Formula.conjoin_true _).symm
      rw [chain, inductionHypothesis _ (.or, q.eval truth) [] (by simp) alone, Option.map_some,
        Option.getD_some, eval_after, value, Formula.disjoin_assoc]
      exact congrArg _ (runsTruth_append joined rfl).symm

/-- A chain holds if one of its longest runs joined by `AND` does. -/
theorem eval_chain (connective : Connective) (p : Formula) (ops : List (Connective × Formula)) :
    (chain none p ops).eval truth = runsTruth (valued truth ((connective, p) :: ops)) := by
  have alone : p.eval truth = allTruth ([(connective, p.eval truth)].map Prod.snd) :=
    (Formula.conjoin_true _).symm
  exact eval_chain_run truth ops none _ [] (by simp) alone

end Truth

/-- Operands after others, each behind its connective. -/
inductive Links : Fragment → List (Connective × Formula) → Prop
  | nil : Links [] []
  | cons {f g : Fragment} {q : Formula} {ops : List (Connective × Formula)} (c : Connective)
      (operand : Reads .operand f q) (later : Links g ops) :
      Links (Connective.token c :: (f ++ g)) ((c, q) :: ops)

variable {f g : Fragment} {p : Formula} {ops ops' : List (Connective × Formula)}

theorem Links.append (h : Links f ops) (h' : Links g ops') : Links (f ++ g) (ops ++ ops') := by
  induction h with
  | nil => exact h'
  | cons c operand later inductionHypothesis =>
    rw [List.cons_append, List.cons_append, List.append_assoc]
    exact .cons c operand inductionHypothesis

/-- What has been read before the operands that go on. -/
def Begins (f : Fragment) (conjuncts : Formula) : Option Formula → Prop
  | none => Reads .conjunction f conjuncts
  | some a => ∃ front back, f = front ++ .or :: back ∧ Reads .disjunction front a ∧
      Reads .conjunction back conjuncts

theorem Begins.reads {alternatives : Option Formula} (h : Begins f p alternatives) :
    Reads .disjunction f (after alternatives p) := by
  cases alternatives with
  | none => exact .all h
  | some a =>
    obtain ⟨front, back, rfl, left, right⟩ := h
    exact .or left right

theorem Begins.chain (links : Links g ops) {alternatives : Option Formula} {f : Fragment}
    {p : Formula} (h : Begins f p alternatives) :
    Reads .disjunction (f ++ g) (chain alternatives p ops) := by
  induction links generalizing f p alternatives with
  | nil =>
    rw [List.append_nil]
    exact h.reads
  | @cons operand rest q ops c here later inductionHypothesis =>
    cases c with
    | and =>
      have longer : Begins (f ++ .and :: operand) (p.and q) alternatives := by
        cases alternatives with
        | none => exact .and h here
        | some a =>
          obtain ⟨front, back, rfl, left, right⟩ := h
          exact ⟨front, back ++ .and :: operand, by simp, left, .and right here⟩
      have read := inductionHypothesis longer
      rwa [List.append_assoc, List.cons_append] at read
    | or =>
      have next : Begins (f ++ .or :: operand) q (some (after alternatives p)) :=
        ⟨f, operand, rfl, h.reads, .one here⟩
      have read := inductionHypothesis next
      rwa [List.append_assoc, List.cons_append] at read

/-- A chain without an `OR` is a conjunction. -/
theorem Links.conjunction (links : Links g ops) (joined : ∀ o ∈ ops, o.1 = .and)
    (h : Reads .conjunction f p) : Reads .conjunction (f ++ g) (Formula.chain none p ops) := by
  induction links generalizing f p with
  | nil => rwa [List.append_nil]
  | @cons operand rest q ops c here later inductionHypothesis =>
    obtain ⟨first, others⟩ := List.forall_mem_cons.mp joined
    cases first
    have read := inductionHypothesis others (.and h here)
    rwa [List.append_assoc, List.cons_append] at read

end TreeQuery.Sql
