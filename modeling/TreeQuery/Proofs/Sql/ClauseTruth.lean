import TreeQuery.Proofs.Sql.Chains

/-!
What clause lists mean: one of the runs joined by `AND` holds, where a clause is negated if it is
flagged and a group counts as one clause. The text of a predicate says just that, and goes on to
say it between other predicates under `AND`.
-/

namespace TreeQuery.Sql

open Scanning Formula

/-- The truth of conditions without connectives, none if it is unknown. -/
structure Valuation where
  truth : Fragment → Option Bool
  always : truth [.sql "TRUE"] = some true
  never : truth [.sql "1", .sql "=", .sql "0"] = some false

namespace Valuation

/-- The truth of a text whose words are one condition. -/
def ofWords (d : Valuation) (s : String) : Option Bool := (scan? s).bind d.truth

/-- A text is read as a condition with this truth. -/
def States (d : Valuation) (s : String) (v : Option Bool) : Prop :=
  ∃ p, readText? s = some p ∧ p.eval d.truth = v

end Valuation

section Meaning

variable (fl : Flavor) (d : Valuation) (a : Labels)

/-- The truth of a condition that is written as one operand without any grouping. -/
def leafTruth (c : Condition) : Binder (Option Bool) := do
  return d.ofWords (Fragment.text fl (← condition a c))

mutual

def conditionTruth : Condition → Binder (Option Bool)
  | .compare c op value => leafTruth fl d a (.compare c op value)
  | .compareColumns l op r => leafTruth fl d a (.compareColumns l op r)
  | .within c values =>
    if values.isEmpty then return some false else leafTruth fl d a (.within c values)
  | .raw sql params => leafTruth fl d a (.raw sql params)
  | .exists sql params => leafTruth fl d a (.exists sql params)
  | .group clauses =>
    if clauses.isEmpty then return some true
    else return runsTruth (← clauseTruths clauses)

def clauseTruths : List Clause → Binder (List (Connective × Option Bool))
  | [] => return []
  | .mk connective negated c :: r => do
    let v ← conditionTruth c
    let v := if negated then v.map (fun b => !b) else v
    return (connective, v) :: (← clauseTruths r)

end

/-- The truth of a clause list. -/
def predicateTruth (clauses : List Clause) : Binder (Option Bool) := do
  if clauses.isEmpty then return some true
  return runsTruth (← clauseTruths fl d a clauses)

mutual

/-- Its sub-queries close what they open, and its raw texts are of a certain kind. -/
def Tidy (raws : String → Prop) : Condition → Prop
  | .raw sql params => ∀ ps f ps', (raw a sql params).run ps = .ok (f, ps') → raws (f.text fl)
  | .exists sql params =>
    ∀ ps f ps', (raw a sql params).run ps = .ok (f, ps') → isBalanced (f.text fl) = true
  | .group clauses => AllTidy raws clauses
  | _ => True

def AllTidy (raws : String → Prop) : List Clause → Prop
  | [] => True
  | .mk _ _ c :: r => Tidy raws c ∧ AllTidy raws r

end

end Meaning

/-- A text that adds tokens to those of any text before it. -/
def Continues (s : String) (g : Fragment) : Prop :=
  ∀ r f, scan? r = some f → scan? (r ++ s) = some (f ++ g)

theorem Continues.nil : Continues "" [] := by
  intro r f front
  rw [String.append_empty, List.append_nil]
  exact front

theorem Continues.cons (fl : Flavor) (c : Connective) {s t : String} {f g : Fragment}
    (operand : scan? s = some f) (later : Continues t g) :
    Continues ((Connective.token c).text fl ++ s ++ t) (Connective.token c :: (f ++ g)) := by
  intro r h front
  have read := later _ _ (scan?_connective fl c front operand)
  simpa only [String.append_assoc, List.append_assoc, List.cons_append] using read

namespace Valuation

variable {d : Valuation} {fl : Flavor} {r : Rank} {s t : String} {v w : Option Bool}
  {vs : List (Connective × Option Bool)}

/-- A text is read as a part of a condition, which has this truth. -/
def Gives (d : Valuation) (r : Rank) (s : String) (v : Option Bool) : Prop :=
  ∃ g p, scan? s = some g ∧ Reads r g p ∧ p.eval d.truth = v

/-- A text adds operands with these truths to what stands before it. -/
def Adds (d : Valuation) (s : String) (vs : List (Connective × Option Bool)) : Prop :=
  ∃ g ops, Continues s g ∧ Links g ops ∧ valued d.truth ops = vs

theorem Gives.one (h : d.Gives .operand s v) : d.Gives .conjunction s v := by
  obtain ⟨g, p, words, read, value⟩ := h
  exact ⟨g, p, words, .one read, value⟩

theorem Gives.all (h : d.Gives .conjunction s v) : d.Gives .disjunction s v := by
  obtain ⟨g, p, words, read, value⟩ := h
  exact ⟨g, p, words, .all read, value⟩

theorem Gives.states (h : d.Gives .disjunction s v) : d.States s v := by
  obtain ⟨g, p, words, read, value⟩ := h
  refine ⟨p, ?_, value⟩
  rw [readText?, words]
  exact read?_of_reads read

theorem Gives.parenthesised (h : d.Gives .disjunction s v) :
    d.Gives .operand ("(" ++ s ++ ")") v := by
  obtain ⟨g, p, words, read, value⟩ := h
  exact ⟨_, p, scan?_parenthesised words, .group read, value⟩

theorem Gives.negated (h : d.Gives .operand s v) :
    d.Gives .operand ("NOT " ++ s) (v.map (fun b => !b)) := by
  obtain ⟨g, p, words, read, rfl⟩ := h
  exact ⟨_, p.not, scan?_negated words, .not read, rfl⟩

theorem gives_of_isAtom (h : IsAtom s) : d.Gives .operand s (d.ofWords s) := by
  obtain ⟨g, words, full, plain⟩ := h
  refine ⟨g, .atom g, words, .words full plain, ?_⟩
  rw [ofWords, words]
  rfl

theorem Adds.nil : d.Adds "" [] := ⟨[], [], .nil, .nil, rfl⟩

theorem Gives.adds (fl : Flavor) (c : Connective) (h : d.Gives .operand s v) (later : d.Adds t vs) :
    d.Adds ((Connective.token c).text fl ++ s ++ t) ((c, v) :: vs) := by
  obtain ⟨f, p, words, read, rfl⟩ := h
  obtain ⟨g, ops, continues, links, rfl⟩ := later
  exact ⟨_, (c, p) :: ops, .cons fl c words continues, .cons c read links, rfl⟩

/-- An operand with others after it means what their runs do. -/
theorem Gives.runs (c : Connective) (h : d.Gives .operand s v) (later : d.Adds t vs) :
    d.Gives .disjunction (s ++ t) (runsTruth ((c, v) :: vs)) := by
  obtain ⟨f, p, words, read, rfl⟩ := h
  obtain ⟨g, ops, continues, links, rfl⟩ := later
  have begins : Begins f p none := .one read
  exact ⟨f ++ g, chain none p ops, continues s f words, begins.chain links, eval_chain _ c p ops⟩

/-- Without an `OR` among them, they can go on under `AND`. -/
theorem Gives.run (c : Connective) (h : d.Gives .operand s v) (later : d.Adds t vs)
    (joined : ∀ w ∈ vs, w.1 = .and) :
    d.Gives .conjunction (s ++ t) (runsTruth ((c, v) :: vs)) := by
  obtain ⟨f, p, words, read, rfl⟩ := h
  obtain ⟨g, ops, continues, links, rfl⟩ := later
  have joined' : ∀ o ∈ ops, o.1 = .and := fun o member =>
    joined (o.1, o.2.eval d.truth) (List.mem_map_of_mem member)
  exact ⟨f ++ g, chain none p ops, continues s f words, links.conjunction joined' (.one read),
    eval_chain _ c p ops⟩

end Valuation

/-- Two conjunctions make up one. -/
theorem Reads.conjoin (truth : Fragment → Option Bool) {r : Rank} {f g : Fragment} {p q : Formula}
    (left : Reads .conjunction f p) (right : Reads r g q) (joins : r = .conjunction) :
    ∃ q', Reads .conjunction (f ++ .and :: g) q' ∧
      q'.eval truth = Formula.conjoin (p.eval truth) (q.eval truth) := by
  induction right with
  | one only => exact ⟨p.and _, .and left only, rfl⟩
  | @and g h q q₂ front back inductionHypothesis _ =>
    obtain ⟨q', read, value⟩ := inductionHypothesis rfl
    refine ⟨q'.and q₂, ?_, ?_⟩
    · have longer := Reads.and read back
      rwa [List.append_assoc, List.cons_append] at longer
    · rw [Formula.eval, value, Formula.conjoin_assoc]
      rfl
  | words | group | not | all | or => cases joins

theorem Valuation.Gives.conjoin {d : Valuation} {fl : Flavor} {s t : String} {v w : Option Bool}
    (left : d.Gives .conjunction s v) (right : d.Gives .conjunction t w) :
    d.Gives .conjunction (s ++ Token.and.text fl ++ t) (Formula.conjoin v w) := by
  obtain ⟨f, p, words, read, rfl⟩ := left
  obtain ⟨g, q, words', read', rfl⟩ := right
  obtain ⟨q', joined, value⟩ := Reads.conjoin d.truth read read' rfl
  exact ⟨_, q', scan?_connective fl .and words words', joined, value⟩

section Written

variable {fl : Flavor} {d : Valuation} {a : Labels} {ps ps' : Params} {f : Fragment}
  {connective : Connective} {negated : Bool} {c : Condition} {clauses r : List Clause}

/-- What a clause is written as once its condition is, negated or not. -/
def clauseBody (negated : Bool) (f : Fragment) : Fragment :=
  if negated then .not :: .lparen :: f ++ [.rparen] else f

def negate (negated : Bool) (v : Option Bool) : Option Bool :=
  if negated then v.map (fun b => !b) else v

theorem clauseTokens_cons_ok {first : Bool} :
    (clauseTokens a first (.mk connective negated c :: r)).run ps = .ok (f, ps') ↔
      ∃ body here others, (condition a c).run ps = .ok (body, here) ∧
        (clauseTokens a false r).run here = .ok (others, ps') ∧
        f = (if first then [] else [Connective.token connective]) ++ clauseBody negated body ++
          others := by
  rw [clauseTokens]
  constructor
  · intro ran
    obtain ⟨body, here, written, ran⟩ := run_bind_ok.mp ran
    obtain ⟨others, _, later, ran⟩ := run_bind_ok.mp ran
    obtain ⟨rfl, rfl⟩ := run_pure_ok.mp ran
    exact ⟨body, here, others, written, later, rfl⟩
  · rintro ⟨body, here, others, written, later, rfl⟩
    exact run_bind_ok.mpr ⟨body, here, written, run_bind_ok.mpr ⟨others, ps', later,
      run_pure_ok.mpr ⟨rfl, rfl⟩⟩⟩

theorem clauseTruths_cons {here : Params} {v : Option Bool} {vs : List (Connective × Option Bool)}
    (truth : (conditionTruth fl d a c).run ps = .ok (v, here))
    (truths : (clauseTruths fl d a r).run here = .ok (vs, ps')) :
    (clauseTruths fl d a (.mk connective negated c :: r)).run ps =
      .ok ((connective, negate negated v) :: vs, ps') := by
  rw [clauseTruths]
  exact run_bind_ok.mpr ⟨v, here, truth, run_bind_ok.mpr ⟨vs, ps', truths,
    run_pure_ok.mpr ⟨rfl, rfl⟩⟩⟩

theorem hasAlternatives_eq_false {first : Clause} :
    hasAlternatives (first :: r) = false ↔ ∀ o ∈ r.map Clause.connective, o = .and := by
  rw [hasAlternatives, List.tail_cons, List.any_eq_false, List.forall_mem_map]
  apply forall₂_congr
  intro clause _
  cases clause.connective <;> simp

theorem body_gives {v : Option Bool} (negated : Bool) (h : d.Gives .operand (f.text fl) v) :
    d.Gives .operand ((clauseBody negated f).text fl) (negate negated v) := by
  cases negated with
  | false => exact h
  | true =>
    have text : Fragment.text fl (clauseBody true f) = "NOT " ++ ("(" ++ f.text fl ++ ")") := by
      simp [clauseBody, Token.text, String.append_assoc]
    rw [text]
    exact h.one.all.parenthesised.negated

theorem never_gives : d.Gives .operand (Fragment.text fl [.sql "1 = 0"]) (some false) := by
  have text : Fragment.text fl [.sql "1 = 0"] = "1 = 0" := by simp
  have words : scan? "1 = 0" = some [.sql "1", .sql "=", .sql "0"] := rfl
  have value : d.ofWords (Fragment.text fl [.sql "1 = 0"]) = some false := by
    rw [Valuation.ofWords, text, words, Option.bind_some, d.never]
  exact value ▸ Valuation.gives_of_isAtom isAtom_never

theorem always_gives : d.Gives .operand (Fragment.text fl [.sql "TRUE"]) (some true) := by
  have text : Fragment.text fl [.sql "TRUE"] = "TRUE" := by simp
  have words : scan? "TRUE" = some [.sql "TRUE"] := rfl
  have value : d.ofWords (Fragment.text fl [.sql "TRUE"]) = some true := by
    rw [Valuation.ofWords, text, words, Option.bind_some, d.always]
  exact value ▸ Valuation.gives_of_isAtom isAtom_true

theorem leaf_gives (atom : IsAtom (f.text fl)) (ran : (condition a c).run ps = .ok (f, ps')) :
    ∃ v, (leafTruth fl d a c).run ps = .ok (v, ps') ∧ d.Gives .operand (f.text fl) v :=
  ⟨_, run_bind_ok.mpr ⟨_, _, ran, run_pure_ok.mpr ⟨rfl, rfl⟩⟩, Valuation.gives_of_isAtom atom⟩

mutual

theorem condition_gives : (c : Condition) → Tidy fl a (fun _ => False) c → {ps ps' : Params} →
    {f : Fragment} → (condition a c).run ps = .ok (f, ps') →
      ∃ v, (conditionTruth fl d a c).run ps = .ok (v, ps') ∧ d.Gives .operand (f.text fl) v
  | .compare c op value, _, ps, ps', f, ran => by
    rw [conditionTruth]
    exact leaf_gives (compare_atom ran) ran
  | .compareColumns l op r, _, ps, ps', f, ran => by
    rw [conditionTruth]
    exact leaf_gives (compareColumns_atom ran) ran
  | .within c [], _, ps, ps', f, ran => by
    rw [condition] at ran
    obtain ⟨rfl, rfl⟩ := run_pure_ok.mp ran
    refine ⟨some false, ?_, never_gives⟩
    rw [conditionTruth]
    exact run_pure_ok.mpr ⟨rfl, rfl⟩
  | .within c (value :: values), _, ps, ps', f, ran => by
    rw [conditionTruth]
    exact leaf_gives (within_atom ran) ran
  | .raw sql params, tidy, ps, ps', f, ran => by
    rw [Tidy] at tidy
    exact absurd (tidy _ _ _ ran) id
  | .exists sql params, tidy, ps, ps', f, ran => by
    rw [conditionTruth]
    rw [Tidy] at tidy
    exact leaf_gives (exists_condition_atom tidy ran) ran
  | .group [], _, ps, ps', f, ran => by
    rw [condition] at ran
    obtain ⟨rfl, rfl⟩ := run_pure_ok.mp ran
    refine ⟨some true, ?_, ?_⟩
    · rw [conditionTruth]
      exact run_pure_ok.mpr ⟨rfl, rfl⟩
    · have always : d.Gives .operand (Fragment.text fl [.sql "TRUE"]) (some true) := always_gives
      simpa [String.append_assoc] using always.one.all.parenthesised
  | .group (c :: r), tidy, ps, ps', f, ran => by
    rw [condition] at ran
    obtain ⟨inside, _, inner, ran⟩ := run_bind_ok.mp ran
    obtain ⟨rfl, rfl⟩ := run_pure_ok.mp ran
    rw [Tidy] at tidy
    obtain ⟨vs, truths, gives, _⟩ := clauseTokens_gives (c :: r) tidy (by simp) inner
    refine ⟨runsTruth vs, ?_, ?_⟩
    · rw [conditionTruth]
      exact run_bind_ok.mpr ⟨vs, _, truths, run_pure_ok.mpr ⟨rfl, rfl⟩⟩
    · simpa [String.append_assoc] using gives.parenthesised

/-- Clauses that follow others. -/
theorem clauseTokens_adds : (clauses : List Clause) → AllTidy fl a (fun _ => False) clauses →
    {ps ps' : Params} → {f : Fragment} → (clauseTokens a false clauses).run ps = .ok (f, ps') →
      ∃ vs, (clauseTruths fl d a clauses).run ps = .ok (vs, ps') ∧ d.Adds (f.text fl) vs ∧
        vs.map Prod.fst = clauses.map Clause.connective
  | [], _, ps, ps', f, ran => by
    obtain ⟨rfl, rfl⟩ := run_pure_ok.mp ran
    exact ⟨[], run_pure_ok.mpr ⟨rfl, rfl⟩, .nil, rfl⟩
  | .mk connective negated c :: r, tidy, ps, ps', f, ran => by
    rw [AllTidy] at tidy
    obtain ⟨body, here, others, written, later, rfl⟩ := clauseTokens_cons_ok.mp ran
    obtain ⟨v, truth, gives⟩ := condition_gives c tidy.1 written
    obtain ⟨vs, truths, adds, connectives⟩ := clauseTokens_adds r tidy.2 later
    refine ⟨_, clauseTruths_cons truth truths, ?_, ?_⟩
    · have whole := (body_gives negated gives).adds fl connective adds
      simpa [String.append_assoc] using whole
    · rw [List.map_cons, List.map_cons, connectives]
      rfl

theorem clauseTokens_gives : (clauses : List Clause) → AllTidy fl a (fun _ => False) clauses →
    clauses ≠ [] → {ps ps' : Params} → {f : Fragment} →
    (clauseTokens a true clauses).run ps = .ok (f, ps') →
      ∃ vs, (clauseTruths fl d a clauses).run ps = .ok (vs, ps') ∧
        d.Gives .disjunction (f.text fl) (runsTruth vs) ∧
        (hasAlternatives clauses = false → d.Gives .conjunction (f.text fl) (runsTruth vs))
  | [], _, full, _, _, _, _ => absurd rfl full
  | .mk connective negated c :: r, tidy, _, ps, ps', f, ran => by
    rw [AllTidy] at tidy
    obtain ⟨body, here, others, written, later, rfl⟩ := clauseTokens_cons_ok.mp ran
    obtain ⟨v, truth, gives⟩ := condition_gives c tidy.1 written
    obtain ⟨vs, truths, adds, connectives⟩ := clauseTokens_adds r tidy.2 later
    have first := body_gives negated gives
    refine ⟨_, clauseTruths_cons truth truths, ?_, ?_⟩
    · simpa using first.runs connective adds
    · intro plain
      have joined : ∀ w ∈ vs, w.1 = .and := by
        rw [hasAlternatives_eq_false, ← connectives] at plain
        exact List.forall_mem_map.mp plain
      simpa using first.run connective adds joined

end

theorem predicate_gives (tidy : AllTidy fl a (fun _ => False) clauses)
    (ran : (predicate a clauses).run ps = .ok (f, ps')) :
    ∃ v, (predicateTruth fl d a clauses).run ps = .ok (v, ps') ∧
      d.Gives .conjunction (f.text fl) v := by
  cases clauses with
  | nil =>
    obtain ⟨rfl, rfl⟩ := run_pure_ok.mp ran
    exact ⟨some true, run_pure_ok.mpr ⟨rfl, rfl⟩, always_gives.one⟩
  | cons c r =>
    obtain ⟨tokens, _, inner, ran⟩ := run_bind_ok.mp ran
    obtain ⟨rfl, rfl⟩ := run_pure_ok.mp ran
    obtain ⟨vs, truths, gives, joined⟩ := clauseTokens_gives (c :: r) tidy (by simp) inner
    refine ⟨runsTruth vs, run_bind_ok.mpr ⟨vs, _, truths, run_pure_ok.mpr ⟨rfl, rfl⟩⟩, ?_⟩
    cases alternatives : hasAlternatives (c :: r) with
    | false => exact joined alternatives
    | true => simpa [String.append_assoc] using gives.parenthesised.one

end Written

/-- Predicates under `AND` are one conjunction. -/
theorem conjunction_gives {fl : Flavor} {d : Valuation} {fs : List Fragment}
    {vs : List (Option Bool)}
    (each : List.Forall₂ (fun f v => d.Gives .conjunction (Fragment.text fl f) v) fs vs)
    (full : fs ≠ []) : d.Gives .conjunction (conjunction fl fs) (allTruth vs) := by
  induction each with
  | nil => exact absurd rfl full
  | @cons f v fs vs first later inductionHypothesis =>
    cases later with
    | nil => simpa [conjunction, allTruth, Formula.conjoin_true] using first
    | @cons g w gs ws second others =>
      have rest := inductionHypothesis (by simp)
      have text : conjunction fl (f :: g :: gs) =
          f.text fl ++ Token.and.text fl ++ conjunction fl (g :: gs) := by
        rw [conjunction, List.map_cons, List.map_cons, String.intercalate_cons_cons]
        rfl
      rw [text]
      exact first.conjoin rest

/-- A clause list as it is written at some point of a statement. -/
structure WrittenPredicate where
  labels : Labels
  clauses : List Clause
  before : Params
  fragment : Fragment
  after : Params
  written : (predicate labels clauses).run before = .ok (fragment, after)

theorem written_gives (fl : Flavor) (d : Valuation) {ws : List WrittenPredicate}
    (tidy : ∀ w ∈ ws, AllTidy fl w.labels (fun _ => False) w.clauses) :
    ∃ vs : List (Option Bool), List.Forall₂ (fun w v =>
      (predicateTruth fl d w.labels w.clauses).run w.before = .ok (v, w.after) ∧
        d.Gives .conjunction (w.fragment.text fl) v) ws vs := by
  induction ws with
  | nil => exact ⟨[], .nil⟩
  | cons w ws inductionHypothesis =>
    obtain ⟨here, tidy⟩ := List.forall_mem_cons.mp tidy
    obtain ⟨v, first⟩ := predicate_gives (d := d) here w.written
    obtain ⟨vs, later⟩ := inductionHypothesis tidy
    exact ⟨v :: vs, .cons first later⟩

/-- A predicate says what its clause list means, and predicates under `AND` say that all of
their clause lists hold. -/
theorem predicates_truth (fl : Flavor) (d : Valuation) (ws : List WrittenPredicate)
    (tidy : ∀ w ∈ ws, AllTidy fl w.labels (fun _ => False) w.clauses) :
    ∃ vs : List (Option Bool),
      List.Forall₂ (fun w v => (predicateTruth fl d w.labels w.clauses).run w.before =
        .ok (v, w.after) ∧ d.States (w.fragment.text fl) v) ws vs ∧
      (ws ≠ [] → d.States (conjunction fl (ws.map WrittenPredicate.fragment)) (allTruth vs)) := by
  obtain ⟨vs, each⟩ := written_gives fl d tidy
  refine ⟨vs, each.imp (fun w v h => ⟨h.1, h.2.all.states⟩), ?_⟩
  intro full
  have conjuncts : List.Forall₂ (fun f v => d.Gives .conjunction (Fragment.text fl f) v)
      (ws.map WrittenPredicate.fragment) vs :=
    List.forall₂_map_left_iff.mpr (each.imp (fun _ _ h => h.2))
  exact (conjunction_gives conjuncts (by simpa using full)).all.states

def ownersQuery : String := "SELECT (\x7btable\x7d.owner)"

/-- Clubs of the staff, and those with an owner that are neither of no kind nor closed early. -/
def clubClauses : List Clause :=
  [.mk .and false (.compare ⟨.this, "kind"⟩ .eq (.text "staff")),
    .mk .or true (.group [.mk .and false (.within ⟨.this, "kind"⟩ []),
      .mk .or false (.compareColumns ⟨.this, "closed"⟩ .lt ⟨.this, "opened"⟩)]),
    .mk .and false (.exists ownersQuery [])]

def ownersFragment : Fragment :=
  "SELECT (".toList.map (fun c => .sql c.toString) ++ .label "clubs" ::
    ".owner)".toList.map (fun c => .sql c.toString)

theorem raw_owners (ps : Params) :
    (raw (.ofTable "clubs") ownersQuery []).run ps = .ok (ownersFragment, ps) := rfl

def clubPredicate : WrittenPredicate where
  labels := .ofTable "clubs"
  clauses := clubClauses
  before := .empty
  fragment := .lparen :: [.column "clubs" "kind", .sql " = ", .param 1 (.text "staff"), .or, .not,
    .lparen, .lparen, .sql "1 = 0", .or, .column "clubs" "closed", .sql " < ",
    .column "clubs" "opened", .rparen, .rparen, .and, .sql "EXISTS ("] ++ ownersFragment ++
    [.sql ")", .rparen]
  after := (Params.empty.push (.text "staff")).2
  written := rfl

def tenantPredicate : WrittenPredicate where
  labels := .ofTable "clubs"
  clauses := [.mk .and false (.compare ⟨.this, "tenant"⟩ .eq (.int 7))]
  before := clubPredicate.after
  fragment := [.column "clubs" "tenant", .sql " = ", .param 2 (.int 7)]
  after := (clubPredicate.after.push (.int 7)).2
  written := rfl

/-- A club whose kind is not known, and which was not closed before it was opened. -/
def kindUnknown : Valuation where
  truth f := match Fragment.text .postgresql f with
    | "1=0" | "\"clubs\".\"closed\"<\"clubs\".\"opened\"" => some false
    | "\"clubs\".\"kind\"=$1" => none
    | _ => some true
  always := rfl
  never := rfl

def clubsWhere : String :=
  "(\"clubs\".\"kind\" = $1 OR NOT ((1 = 0 OR \"clubs\".\"closed\" < \"clubs\".\"opened\"))" ++
    " AND EXISTS (SELECT (\"clubs\".owner))) AND \"clubs\".\"tenant\" = $2"

theorem predicates_truth_clubs : kindUnknown.States clubsWhere (some true) := by
  have balanced : isBalanced (Fragment.text .postgresql ownersFragment) = true := rfl
  have clubTidy : AllTidy .postgresql (.ofTable "clubs") (fun _ => False) clubClauses := by
    refine ⟨trivial, ⟨trivial, trivial, trivial⟩, ?_, trivial⟩
    rintro ps f ps' ran
    cases (raw_owners ps).symm.trans ran
    exact balanced
  have tidy : ∀ w ∈ [clubPredicate, tenantPredicate],
      AllTidy .postgresql w.labels (fun _ => False) w.clauses :=
    List.forall_mem_cons.mpr ⟨clubTidy, List.forall_mem_singleton.mpr ⟨trivial, trivial⟩⟩
  obtain ⟨vs, each, all⟩ :=
    predicates_truth .postgresql kindUnknown [clubPredicate, tenantPredicate] tidy
  obtain _ | ⟨⟨club, _⟩, _ | ⟨⟨tenant, _⟩, ⟨⟩⟩⟩ := each
  have clubHolds : (predicateTruth .postgresql kindUnknown (.ofTable "clubs") clubClauses).run
      .empty = .ok (some true, clubPredicate.after) := rfl
  have tenantHolds : (predicateTruth .postgresql kindUnknown (.ofTable "clubs")
      tenantPredicate.clauses).run clubPredicate.after =
        .ok (some true, tenantPredicate.after) := rfl
  obtain ⟨rfl, _⟩ := Prod.mk.inj (Except.ok.inj (clubHolds.symm.trans club))
  obtain ⟨rfl, _⟩ := Prod.mk.inj (Except.ok.inj (tenantHolds.symm.trans tenant))
  have text : conjunction .postgresql [clubPredicate.fragment, tenantPredicate.fragment] =
      clubsWhere := by decide +kernel
  exact text ▸ all (by simp)

end TreeQuery.Sql
