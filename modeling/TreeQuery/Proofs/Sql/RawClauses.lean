import TreeQuery.Proofs.Sql.Regrouping

/-!
Raw SQL among other clauses. It is written without parentheses, so it keeps together only if it has
no `OR` outside of parentheses, if it is negated, or if no `AND` stands beside it: neither in its
own list nor, where that list is not in parentheses either, from the other predicates.
-/

namespace TreeQuery.Sql

open Scanning Formula

/-- A well-formed condition. -/
def IsCondition (s : String) : Prop := ∃ g p, scan? s = some g ∧ Reads .disjunction g p

/-- How often an `OR` stands outside of parentheses, so many of which are open. -/
def outerOrs : Nat → Fragment → Nat
  | _, [] => 0
  | depth, .lparen :: f => outerOrs (depth + 1) f
  | depth, .rparen :: f => outerOrs (depth - 1) f
  | 0, .or :: f => outerOrs 0 f + 1
  | depth, _ :: f => outerOrs depth f

/-- There is an `OR` outside of parentheses. -/
def isLoose (s : String) : Bool := (scan? s).any (fun g => outerOrs 0 g ≠ 0)

theorem outerOrs_words {f : Fragment} (plain : ∀ t ∈ f, t.isWord = true) (depth : Nat)
    (rest : Fragment) : outerOrs depth (f ++ rest) = outerOrs depth rest := by
  induction f with
  | nil => rfl
  | cons t f inductionHypothesis =>
    obtain ⟨word, plain⟩ := List.forall_mem_cons.mp plain
    have step : outerOrs depth (t :: (f ++ rest)) = outerOrs depth (f ++ rest) := by
      cases t with
      | lparen | rparen | and | or | not => cases word
      | sql _ | column _ _ | label _ | param _ _ => cases depth <;> rw [outerOrs] <;> simp
    exact step.trans (inductionHypothesis plain)

theorem outerOrs_lparen (depth : Nat) (f : Fragment) :
    outerOrs depth (.lparen :: f) = outerOrs (depth + 1) f := by cases depth <;> rfl

theorem outerOrs_rparen (depth : Nat) (f : Fragment) :
    outerOrs (depth + 1) (.rparen :: f) = outerOrs depth f := rfl

theorem outerOrs_not (depth : Nat) (f : Fragment) :
    outerOrs depth (.not :: f) = outerOrs depth f := by cases depth <;> rfl

theorem outerOrs_and (depth : Nat) (f : Fragment) :
    outerOrs depth (.and :: f) = outerOrs depth f := by cases depth <;> rfl

/-- Only a disjunction shows an `OR`, and not in parentheses. -/
theorem outerOrs_reads {r : Rank} {f : Fragment} {p : Formula} (h : Reads r f p) (depth : Nat)
    (enclosed : r = .disjunction → 0 < depth) (rest : Fragment) :
    outerOrs depth (f ++ rest) = outerOrs depth rest := by
  induction h generalizing depth rest with
  | words _ plain => exact outerOrs_words plain depth rest
  | @group f p inside inductionHypothesis =>
    have here := inductionHypothesis (depth + 1) (fun _ => Nat.succ_pos depth) (.rparen :: rest)
    rw [parenthesised, List.append_assoc, List.cons_append, outerOrs_lparen]
    exact here.trans (outerOrs_rparen depth rest)
  | not negated inductionHypothesis =>
    rw [List.cons_append, outerOrs_not]
    exact inductionHypothesis depth (by simp) rest
  | one only inductionHypothesis => exact inductionHypothesis depth (by simp) rest
  | @and f g p q left right leftHypothesis rightHypothesis =>
    have here := leftHypothesis depth (by simp) (.and :: (g ++ rest))
    rw [List.append_assoc, List.cons_append, here, outerOrs_and]
    exact rightHypothesis _ (by simp) rest
  | all only inductionHypothesis => exact inductionHypothesis depth (by simp) rest
  | @or f g p q left right leftHypothesis rightHypothesis =>
    obtain ⟨depth, rfl⟩ := Nat.exists_eq_succ_of_ne_zero (Nat.ne_of_gt (enclosed rfl))
    have here := leftHypothesis _ enclosed (.or :: (g ++ rest))
    rw [List.append_assoc, List.cons_append, here]
    exact rightHypothesis _ (by simp) rest

theorem outerOrs_links {g : Fragment} {ops : List (Connective × Formula)} (links : Links g ops) :
    outerOrs 0 g = 0 ↔ ∀ o ∈ ops, o.1 = .and := by
  induction links with
  | nil => simp [outerOrs]
  | @cons f g q ops c operand later inductionHypothesis =>
    have skip := outerOrs_reads operand 0 (by simp) g
    cases c with
    | and =>
      rw [Connective.token, outerOrs_and, skip, inductionHypothesis]
      simp
    | or => simp [Connective.token, outerOrs]

namespace Row

variable {s t : String} {r r' : Row}

/-- A text is read as operands in a row. -/
def Of (s : String) (r : Row) : Prop :=
  ∃ f g, scan? s = some (f ++ g) ∧ Reads .operand f r.first ∧ Links g r.rest

theorem Of.reads (h : Of s r) : ∃ g, scan? s = some g ∧ Reads .disjunction g r.formula := by
  obtain ⟨f, g, words, operand, links⟩ := h
  have begins : Begins f r.first none := .one operand
  exact ⟨f ++ g, words, begins.chain links⟩

theorem Of.read (h : Of s r) : readText? s = some r.formula := by
  obtain ⟨g, words, reads⟩ := h.reads
  rw [readText?, words]
  exact read?_of_reads reads

theorem Of.isCondition (h : Of s r) : IsCondition s := by
  obtain ⟨g, words, reads⟩ := h.reads
  exact ⟨g, r.formula, words, reads⟩

theorem Of.append (fl : Flavor) (c : Connective) (h : Of s r) (h' : Of t r') :
    Of (s ++ (Connective.token c).text fl ++ t) ⟨r.first, r.rest ++ (c, r'.first) :: r'.rest⟩ := by
  obtain ⟨f, g, words, operand, links⟩ := h
  obtain ⟨f', g', words', operand', links'⟩ := h'
  refine ⟨f, g ++ Connective.token c :: (f' ++ g'), ?_, operand,
    links.append (.cons c operand' links')⟩
  rw [scan?_connective fl c words words', List.append_assoc]

theorem Of.parenthesised (h : Of s r) : Of ("(" ++ s ++ ")") r.unit := by
  obtain ⟨g, words, reads⟩ := h.reads
  refine ⟨_, [], ?_, .group reads, .nil⟩
  rw [List.append_nil]
  exact scan?_parenthesised words

theorem Of.negated {p : Formula} (h : Of s ⟨p, []⟩) : Of ("NOT " ++ s) ⟨p.not, []⟩ := by
  obtain ⟨f, g, words, operand, links⟩ := h
  cases links
  rw [List.append_nil] at words
  refine ⟨.not :: f, [], ?_, .not operand, .nil⟩
  rw [List.append_nil]
  exact scan?_negated words

theorem of_isAtom (h : IsAtom s) : ∃ p, Of s ⟨p, []⟩ := by
  obtain ⟨g, words, full, plain⟩ := h
  exact ⟨.atom g, g, [], by rw [List.append_nil, words], .words full plain, .nil⟩

theorem isLoose_iff (h : Of s r) : isLoose s = false ↔ ∀ o ∈ r.rest, o.1 = .and := by
  obtain ⟨f, g, words, operand, links⟩ := h
  have skip := outerOrs_reads operand 0 (by simp) g
  rw [isLoose, words, Option.any_some, skip, ← outerOrs_links links]
  simp

end Row

/-- A condition is read as operands in a row. -/
theorem Reads.row {k : Rank} {g : Fragment} {p : Formula} (h : Reads k g p) :
    ∃ (r : Row) (f rest : Fragment),
      g = f ++ rest ∧ Reads .operand f r.first ∧ Links rest r.rest := by
  induction h with
  | @words f full plain => exact ⟨⟨.atom f, []⟩, f, [], by simp, .words full plain, .nil⟩
  | group inside _ => exact ⟨⟨_, []⟩, _, [], (List.append_nil _).symm, .group inside, .nil⟩
  | not negated _ => exact ⟨⟨_, []⟩, _, [], (List.append_nil _).symm, .not negated, .nil⟩
  | one _ inductionHypothesis => exact inductionHypothesis
  | all _ inductionHypothesis => exact inductionHypothesis
  | and _ _ leftHypothesis rightHypothesis =>
    obtain ⟨r, f, rest, rfl, operand, links⟩ := leftHypothesis
    obtain ⟨r', f', rest', rfl, operand', links'⟩ := rightHypothesis
    exact ⟨⟨r.first, r.rest ++ (.and, r'.first) :: r'.rest⟩, f, _, List.append_assoc .., operand,
      links.append (.cons .and operand' links')⟩
  | or _ _ leftHypothesis rightHypothesis =>
    obtain ⟨r, f, rest, rfl, operand, links⟩ := leftHypothesis
    obtain ⟨r', f', rest', rfl, operand', links'⟩ := rightHypothesis
    exact ⟨⟨r.first, r.rest ++ (.or, r'.first) :: r'.rest⟩, f, _, List.append_assoc .., operand,
      links.append (.cons .or operand' links')⟩

theorem isCondition_of_isAtom {s : String} (h : IsAtom s) : IsCondition s := by
  obtain ⟨g, words, full, plain⟩ := h
  exact ⟨g, .atom g, words, .all (.one (.words full plain))⟩

theorem IsCondition.row {s : String} (h : IsCondition s) : ∃ r, Row.Of s r := by
  obtain ⟨g, p, words, reads⟩ := h
  obtain ⟨r, f, rest, rfl, operand, links⟩ := reads.row
  exact ⟨r, f, rest, words, operand, links⟩

section Written

variable {fl : Flavor} {a : Labels} {ps ps' : Params} {f : Fragment} {connective : Connective}
  {negated : Bool} {c : Condition}

theorem body_row {p : Formula} (negated : Bool) (h : Row.Of (f.text fl) ⟨p, []⟩) :
    Row.Of ((clauseBody negated f).text fl) ⟨if negated then p.not else p, []⟩ := by
  cases negated with
  | false => exact h
  | true =>
    have text : Fragment.text fl (clauseBody true f) = "NOT " ++ ("(" ++ f.text fl ++ ")") := by
      simp [clauseBody, Token.text, String.append_assoc]
    rw [text]
    exact h.parenthesised.negated

/-- In parentheses a row can be negated. -/
theorem negated_row {r : Row} (h : Row.Of (f.text fl) r) :
    Row.Of ((clauseBody true f).text fl) ⟨r.formula.not, []⟩ := by
  have text : Fragment.text fl (clauseBody true f) = "NOT " ++ ("(" ++ f.text fl ++ ")") := by
    simp [clauseBody, Token.text, String.append_assoc]
  rw [text]
  exact h.parenthesised.negated

theorem body_isCondition (negated : Bool) (h : IsCondition (f.text fl)) :
    IsCondition ((clauseBody negated f).text fl) := by
  cases negated with
  | false => exact h
  | true =>
    obtain ⟨r, row⟩ := h.row
    exact (negated_row row).isCondition

/-- Clauses behind others are those clauses behind their connective. -/
theorem clauseTokens_false_ok {x : Clause} {r : List Clause} :
    (clauseTokens a false (x :: r)).run ps = .ok (f, ps') ↔
      ∃ g, (clauseTokens a true (x :: r)).run ps = .ok (g, ps') ∧
        f = Connective.token x.connective :: g := by
  obtain ⟨connective, negated, c⟩ := x
  rw [clauseTokens_cons_ok]
  constructor
  · rintro ⟨body, here, others, written, later, rfl⟩
    exact ⟨_, clauseTokens_cons_ok.mpr ⟨body, here, others, written, later, rfl⟩, rfl⟩
  · rintro ⟨g, ran, rfl⟩
    obtain ⟨body, here, others, written, later, rfl⟩ := clauseTokens_cons_ok.mp ran
    exact ⟨body, here, others, written, later, rfl⟩

theorem clauseTokens_append_false_ok {before after : List Clause} :
    (clauseTokens a false (before ++ after)).run ps = .ok (f, ps') ↔
      ∃ g here h, (clauseTokens a false before).run ps = .ok (g, here) ∧
        (clauseTokens a false after).run here = .ok (h, ps') ∧ f = g ++ h := by
  induction before generalizing ps f with
  | nil =>
    constructor
    · intro ran
      exact ⟨[], ps, f, run_pure_ok.mpr ⟨rfl, rfl⟩, ran, rfl⟩
    · rintro ⟨g, here, h, none, ran, rfl⟩
      obtain ⟨rfl, rfl⟩ := run_pure_ok.mp none
      exact ran
  | cons x before inductionHypothesis =>
    obtain ⟨connective, negated, c⟩ := x
    rw [List.cons_append, clauseTokens_cons_ok]
    constructor
    · rintro ⟨body, here, others, written, later, rfl⟩
      obtain ⟨g, there, h, first, second, rfl⟩ := inductionHypothesis.mp later
      exact ⟨_, there, h, clauseTokens_cons_ok.mpr ⟨body, here, g, written, first, rfl⟩, second,
        (List.append_assoc ..).symm⟩
    · rintro ⟨g, there, h, first, second, rfl⟩
      obtain ⟨body, here, others, written, later, rfl⟩ := clauseTokens_cons_ok.mp first
      exact ⟨body, here, _, written, inductionHypothesis.mpr ⟨others, there, h, later, second, rfl⟩,
        List.append_assoc ..⟩

theorem clauseTokens_append_ok {x : Clause} {before after : List Clause} :
    (clauseTokens a true (x :: before ++ after)).run ps = .ok (f, ps') ↔
      ∃ g here h, (clauseTokens a true (x :: before)).run ps = .ok (g, here) ∧
        (clauseTokens a false after).run here = .ok (h, ps') ∧ f = g ++ h := by
  obtain ⟨connective, negated, c⟩ := x
  rw [List.cons_append, clauseTokens_cons_ok]
  constructor
  · rintro ⟨body, here, others, written, later, rfl⟩
    obtain ⟨g, there, h, first, second, rfl⟩ := clauseTokens_append_false_ok.mp later
    exact ⟨_, there, h, clauseTokens_cons_ok.mpr ⟨body, here, g, written, first, rfl⟩, second,
      (List.append_assoc ..).symm⟩
  · rintro ⟨g, there, h, first, second, rfl⟩
    obtain ⟨body, here, others, written, later, rfl⟩ := clauseTokens_cons_ok.mp first
    exact ⟨body, here, _, written,
      clauseTokens_append_false_ok.mpr ⟨others, there, h, later, second, rfl⟩, List.append_assoc ..⟩

mutual

theorem condition_isCondition : (c : Condition) → Tidy fl a IsCondition c → {ps ps' : Params} →
    {f : Fragment} → (condition a c).run ps = .ok (f, ps') → IsCondition (f.text fl)
  | .compare _ _ _, _, _, _, _, ran => isCondition_of_isAtom (compare_atom ran)
  | .compareColumns _ _ _, _, _, _, _, ran => isCondition_of_isAtom (compareColumns_atom ran)
  | .within _ _, _, _, _, _, ran => isCondition_of_isAtom (within_atom ran)
  | .raw sql params, tidy, ps, ps', f, ran => by
    rw [Tidy] at tidy
    exact tidy _ _ _ ran
  | .exists sql params, tidy, ps, ps', f, ran => by
    rw [Tidy] at tidy
    exact isCondition_of_isAtom (exists_condition_atom tidy ran)
  | .group [], _, ps, ps', f, ran => by
    rw [condition] at ran
    obtain ⟨rfl, rfl⟩ := run_pure_ok.mp ran
    have atom : IsAtom (Fragment.text fl [.sql "TRUE"]) := isAtom_true
    obtain ⟨p, always⟩ := Row.of_isAtom atom
    simpa [String.append_assoc] using always.parenthesised.isCondition
  | .group (x :: r), tidy, ps, ps', f, ran => by
    rw [condition] at ran
    obtain ⟨inside, _, inner, ran⟩ := run_bind_ok.mp ran
    obtain ⟨rfl, rfl⟩ := run_pure_ok.mp ran
    rw [Tidy] at tidy
    obtain ⟨row, reads⟩ := (clauseTokens_isCondition (x :: r) tidy (by simp) inner).row
    simpa [String.append_assoc] using reads.parenthesised.isCondition

theorem clauseTokens_isCondition : (clauses : List Clause) → AllTidy fl a IsCondition clauses →
    clauses ≠ [] → {ps ps' : Params} → {f : Fragment} →
    (clauseTokens a true clauses).run ps = .ok (f, ps') → IsCondition (f.text fl)
  | [], _, full, _, _, _, _ => absurd rfl full
  | [.mk connective negated c], tidy, _, ps, ps', f, ran => by
    rw [AllTidy] at tidy
    obtain ⟨body, here, others, written, later, rfl⟩ := clauseTokens_cons_ok.mp ran
    obtain ⟨rfl, rfl⟩ := run_pure_ok.mp later
    have only := body_isCondition negated (condition_isCondition c tidy.1 written)
    simpa using only
  | .mk connective negated c :: y :: r, tidy, _, ps, ps', f, ran => by
    rw [AllTidy] at tidy
    obtain ⟨body, here, others, written, later, rfl⟩ := clauseTokens_cons_ok.mp ran
    obtain ⟨rest, inner, rfl⟩ := clauseTokens_false_ok.mp later
    obtain ⟨row, first⟩ := (body_isCondition negated (condition_isCondition c tidy.1 written)).row
    obtain ⟨row', second⟩ := (clauseTokens_isCondition (y :: r) tidy.2 (by simp) inner).row
    have whole := first.append fl y.connective second
    simpa [String.append_assoc] using whole.isCondition

end

theorem allTidy_append {raws : String → Prop} {x : Clause} {before after : List Clause}
    (tidy : AllTidy fl a raws (before ++ x :: after)) :
    AllTidy fl a raws before ∧ Tidy fl a raws x.condition ∧ AllTidy fl a raws after := by
  induction before with
  | nil =>
    obtain ⟨connective, negated, c⟩ := x
    rw [List.nil_append, AllTidy] at tidy
    exact ⟨trivial, tidy⟩
  | cons y before inductionHypothesis =>
    obtain ⟨connective, negated, c⟩ := y
    rw [List.cons_append, AllTidy] at tidy
    obtain ⟨here, later⟩ := inductionHypothesis tidy.2
    rw [AllTidy]
    exact ⟨⟨tidy.1, here⟩, later⟩

/-- A clause before others is operands before theirs. -/
theorem clauseTokens_before {after : List Clause} (tidy : AllTidy fl a IsCondition after)
    (ran : (clauseTokens a true (.mk connective negated c :: after)).run ps = .ok (f, ps')) :
    ∃ body there back, (condition a c).run ps = .ok (body, there) ∧
      back.map Prod.fst = after.head?.map Clause.connective ∧
      ∀ c' body', (condition a c').run ps = .ok (body', there) →
        ∃ f', (clauseTokens a true (.mk connective negated c' :: after)).run ps = .ok (f', ps') ∧
          ∀ r, Row.Of ((clauseBody negated body').text fl) r →
            Row.Of (f'.text fl) (Row.between none r back) := by
  obtain ⟨body, there, others, written, later, rfl⟩ := clauseTokens_cons_ok.mp ran
  cases after with
  | nil =>
    refine ⟨body, there, none, written, rfl, ?_⟩
    intro c' body' written'
    refine ⟨_, clauseTokens_cons_ok.mpr ⟨body', there, others, written', later, rfl⟩, ?_⟩
    intro r row
    obtain ⟨rfl, rfl⟩ := run_pure_ok.mp later
    simpa [Row.between, Row.behind] using row
  | cons y after =>
    obtain ⟨rest, inner, rfl⟩ := clauseTokens_false_ok.mp later
    obtain ⟨s, second⟩ := (clauseTokens_isCondition (y :: after) tidy (by simp) inner).row
    refine ⟨body, there, some (y.connective, s), written, rfl, ?_⟩
    intro c' body' written'
    refine ⟨_, clauseTokens_cons_ok.mpr ⟨body', there, _, written', later, rfl⟩, ?_⟩
    intro r row
    have whole : Row.Of _ (Row.between none r (some (y.connective, s))) :=
      row.append fl y.connective second
    simpa [String.append_assoc] using whole

/-- Clauses between others are operands between theirs. -/
theorem clauseTokens_between {before after : List Clause}
    (tidyBefore : AllTidy fl a IsCondition before) (tidyAfter : AllTidy fl a IsCondition after)
    (ran : (clauseTokens a true (before ++ .mk connective negated c :: after)).run ps =
      .ok (f, ps')) :
    ∃ body here there front back, (condition a c).run here = .ok (body, there) ∧
      front.map Prod.snd = (if before = [] then none else some connective) ∧
      back.map Prod.fst = after.head?.map Clause.connective ∧
      ∀ c' body', (condition a c').run here = .ok (body', there) →
        ∃ f', (clauseTokens a true (before ++ .mk connective negated c' :: after)).run ps =
            .ok (f', ps') ∧
          ∀ r, Row.Of ((clauseBody negated body').text fl) r →
            Row.Of (f'.text fl) (Row.between front r back) := by
  cases before with
  | nil =>
    obtain ⟨body, there, back, written, connectives, others⟩ := clauseTokens_before tidyAfter ran
    exact ⟨body, ps, there, none, back, written, rfl, connectives, others⟩
  | cons x before =>
    obtain ⟨g, here, h, first, second, rfl⟩ := clauseTokens_append_ok.mp ran
    obtain ⟨h, inner, rfl⟩ := clauseTokens_false_ok.mp second
    obtain ⟨s, row⟩ := (clauseTokens_isCondition (x :: before) tidyBefore (by simp) first).row
    obtain ⟨body, there, back, written, connectives, others⟩ := clauseTokens_before tidyAfter inner
    refine ⟨body, here, there, some (s, connective), back, written, rfl, connectives, ?_⟩
    intro c' body' written'
    obtain ⟨h', inner', rows⟩ := others c' body' written'
    refine ⟨g ++ Connective.token connective :: h', clauseTokens_append_ok.mpr
      ⟨g, here, _, first, clauseTokens_false_ok.mpr ⟨h', inner', rfl⟩, rfl⟩, ?_⟩
    intro r operands
    have whole : Row.Of _ (Row.between (some (s, connective)) r back) :=
      row.append fl connective (rows r operands)
    simpa [String.append_assoc] using whole

end Written

/-- Where a clause stands: in a list, or in the list of a group that stands somewhere. -/
inductive Place where
  | within (before after : List Clause)
  | grouped (outer : Place) (connective : Connective) (negated : Bool) (before after : List Clause)

namespace Place

/-- The clause list with a clause in its place. -/
def fill : Place → Clause → List Clause
  | .within before after, x => before ++ x :: after
  | .grouped outer connective negated before after, x =>
    outer.fill (.mk connective negated (.group (before ++ x :: after)))

def before : Place → List Clause
  | .within before _ | .grouped _ _ _ before _ => before

def after : Place → List Clause
  | .within _ after | .grouped _ _ _ _ after => after

/-- A clause there has an `AND` on either side. -/
def isBeside (p : Place) (connective : Connective) : Bool :=
  (!p.before.isEmpty && connective = .and) || p.after.head?.any (fun x => x.connective = .and)

def isGrouped : Place → Bool
  | .within _ _ => false
  | .grouped _ _ _ _ _ => true

end Place

section Raw

variable (fl : Flavor) (a : Labels) (sql : String) (params : Fields Value)

/-- A text that the raw SQL is written as. -/
def IsWritten (t : Fragment) : Prop := ∃ ps ps', (raw a sql params).run ps = .ok (t, ps')

/-- Two conditions are written as operands that are alike just where raw texts are kept whole. -/
def Exchange (kept : Fragment → Prop) (c c' : Condition) : Prop :=
  ∀ ps f ps', (condition a c).run ps = .ok (f, ps') → ∃ f' t p p',
    (condition a c').run ps = .ok (f', ps') ∧ IsWritten a sql params t ∧
      Row.Of (f.text fl) ⟨p, []⟩ ∧ Row.Of (f'.text fl) ⟨p', []⟩ ∧ (p.Alike p' ↔ kept t)

/-- Predicates around another one. -/
structure Company where
  front : Option (Row × Connective)
  back : Option (Connective × Row)
  joined : ∀ c, front.map Prod.snd = some c ∨ back.map Prod.fst = some c → c = .and

def Company.isEmpty (k : Company) : Bool := k.front.isNone && k.back.isNone

/-- Two clause lists are written as rows that are alike just where raw texts are kept whole. -/
def ListExchange (kept : Bool → Fragment → Prop) (l l' : List Clause) : Prop :=
  ∀ ps f ps', (clauseTokens a true l).run ps = .ok (f, ps') → ∃ f' t r r',
    (clauseTokens a true l').run ps = .ok (f', ps') ∧ IsWritten a sql params t ∧
      Row.Of (f.text fl) r ∧ Row.Of (f'.text fl) r' ∧
      ∀ k : Company, (k.isEmpty = false → hasAlternatives l = false) →
        ((Row.between k.front r k.back).formula.Alike (Row.between k.front r' k.back).formula ↔
          kept k.isEmpty t)

end Raw

section Kept

variable {fl : Flavor} {a : Labels} {sql : String} {params : Fields Value} {ps ps' : Params}
  {f : Fragment} {connective : Connective} {negated : Bool} {c c' : Condition}
  {kept : Fragment → Prop} {before after : List Clause}

/-- Exchanged within a list, conditions make as much of a difference as alone. -/
theorem Exchange.list (swap : Exchange fl a sql params kept c c')
    (tidy : AllTidy fl a IsCondition (before ++ .mk connective negated c :: after)) :
    ListExchange fl a sql params (fun _ => kept) (before ++ .mk connective negated c :: after)
      (before ++ .mk connective negated c' :: after) := by
  intro ps f ps' ran
  obtain ⟨tidyBefore, _, tidyAfter⟩ := allTidy_append tidy
  obtain ⟨body, here, there, front, back, written, _, _, others⟩ :=
    clauseTokens_between tidyBefore tidyAfter ran
  obtain ⟨body', t, p, p', written', raws, row, row', same⟩ := swap _ _ _ written
  obtain ⟨g, ran', rows⟩ := others c body written
  obtain ⟨f', run, rows'⟩ := others c' body' written'
  obtain ⟨rfl, _⟩ := Prod.mk.inj (Except.ok.inj (ran.symm.trans ran'))
  refine ⟨f', t, _, _, run, raws, rows _ (body_row negated row), rows' _ (body_row negated row'),
    ?_⟩
  intro k _
  obtain ⟨front', back', _, _, whole⟩ := Row.between_between k.front front back k.back
  rw [whole, whole]
  apply Row.alike_between_iff.trans
  cases negated with
  | false => exact same
  | true => exact not_inj.trans same

theorem condition_group_ok {l : List Clause} (full : l ≠ []) :
    (condition a (.group l)).run ps = .ok (f, ps') ↔
      ∃ g, (clauseTokens a true l).run ps = .ok (g, ps') ∧ f = .lparen :: g ++ [.rparen] := by
  obtain ⟨x, r, rfl⟩ := List.exists_cons_of_ne_nil full
  rw [condition]
  constructor
  · intro ran
    obtain ⟨g, _, inner, ran⟩ := run_bind_ok.mp ran
    obtain ⟨rfl, rfl⟩ := run_pure_ok.mp ran
    exact ⟨g, inner, rfl⟩
  · rintro ⟨g, inner, rfl⟩
    exact run_bind_ok.mpr ⟨g, ps', inner, run_pure_ok.mpr ⟨rfl, rfl⟩⟩

theorem enclosed_row {r : Row} (h : Row.Of (f.text fl) r) :
    Row.Of (Fragment.text fl (.lparen :: f ++ [.rparen])) r.unit := by
  have text : Fragment.text fl (.lparen :: f ++ [.rparen]) = "(" ++ f.text fl ++ ")" := by
    simp [String.append_assoc]
  rw [text]
  exact h.parenthesised

def Company.none : Company := ⟨.none, .none, by simp⟩

theorem Company.formula_none (r : Row) :
    (Row.between Company.none.front r Company.none.back).formula = r.formula := by
  rw [Company.none, Row.between, Row.behind, List.append_nil]

/-- A list in parentheses. -/
theorem ListExchange.group {kept : Bool → Fragment → Prop} {l l' : List Clause}
    (swap : ListExchange fl a sql params kept l l') (full : l ≠ []) (full' : l' ≠ []) :
    Exchange fl a sql params (kept true) (.group l) (.group l') := by
  intro ps f ps' ran
  obtain ⟨g, inner, rfl⟩ := (condition_group_ok full).mp ran
  obtain ⟨g', t, r, r', inner', raws, row, row', same⟩ := swap _ _ _ inner
  refine ⟨_, t, r.formula, r'.formula, (condition_group_ok full').mpr ⟨g', inner', rfl⟩, raws,
    enclosed_row row, enclosed_row row', ?_⟩
  have alone := same .none (by simp [Company.none, Company.isEmpty])
  rwa [Company.formula_none, Company.formula_none] at alone

/-- Raw SQL in parentheses. -/
def aside (sql : String) (params : Fields Value) : Condition :=
  .group [.mk .and false (.raw sql params)]

theorem aside_ok : (condition a (aside sql params)).run ps = .ok (f, ps') ↔
    ∃ t, (raw a sql params).run ps = .ok (t, ps') ∧ f = .lparen :: t ++ [.rparen] := by
  rw [aside, condition_group_ok (by simp)]
  constructor
  · rintro ⟨g, inner, rfl⟩
    obtain ⟨body, here, others, written, later, rfl⟩ := clauseTokens_cons_ok.mp inner
    obtain ⟨rfl, rfl⟩ := run_pure_ok.mp later
    exact ⟨body, written, by simp [clauseBody]⟩
  · rintro ⟨t, written, rfl⟩
    exact ⟨t, clauseTokens_cons_ok.mpr ⟨t, ps', [], written, run_pure_ok.mpr ⟨rfl, rfl⟩,
      by simp [clauseBody]⟩, rfl⟩

/-- As the body of a clause, raw SQL in parentheses is the same row as one operand. -/
theorem body_rows {t : Fragment} {r : Row} (row : Row.Of (t.text fl) r) (negated : Bool) :
    ∃ s, Row.Of ((clauseBody negated t).text fl) s ∧
      Row.Of ((clauseBody negated (.lparen :: t ++ [.rparen])).text fl) s.unit ∧
      ((∀ o ∈ s.rest, o.1 = .and) ↔ negated = true ∨ isLoose (t.text fl) = false) := by
  cases negated with
  | false =>
    refine ⟨r, row, enclosed_row row, ?_⟩
    rw [← Row.isLoose_iff row]
    simp
  | true =>
    have apart := negated_row (r := r.unit) (enclosed_row row)
    exact ⟨⟨r.formula.not, []⟩, negated_row row, apart, by simp⟩

/-- In a list without alternatives every clause beside another one is joined by `AND`. -/
theorem joined_of_plain {x : Clause}
    (plain : hasAlternatives (before ++ x :: after) = false) :
    (before ≠ [] → x.connective = .and) ∧ ∀ y ∈ after, y.connective = .and := by
  cases before with
  | nil =>
    rw [List.nil_append, hasAlternatives_eq_false, List.forall_mem_map] at plain
    exact ⟨absurd rfl, plain⟩
  | cons w before =>
    rw [List.cons_append, hasAlternatives_eq_false, List.forall_mem_map] at plain
    exact ⟨fun _ => plain x (by simp), fun y member => plain y (by simp [member])⟩

theorem Company.beside (k : Company) (some : k.isEmpty = false) :
    k.front.map Prod.snd = .some .and ∨ k.back.map Prod.fst = .some .and := by
  obtain ⟨front, back, joined⟩ := k
  cases front with
  | some b => exact .inl (congrArg _ (joined _ (.inl rfl)))
  | none =>
    cases back with
    | some b => exact .inr (congrArg _ (joined _ (.inr rfl)))
    | none => cases some

/-- An `AND` beside a clause is one of its list, or one to the predicates around the list. -/
theorem beside_iff {x : Condition} (k : Company)
    (plain : k.isEmpty = false →
      hasAlternatives (before ++ .mk connective negated x :: after) = false)
    {front : Option (Row × Connective)} {back : Option (Connective × Row)}
    (ahead : front.map Prod.snd =
      (if before = [] then none else some connective).or (k.front.map Prod.snd))
    (behind : back.map Prod.fst = (after.head?.map Clause.connective).or (k.back.map Prod.fst)) :
    Row.Beside front back ↔
      ¬ ((Place.within before after).isBeside connective = false ∧ k.isEmpty = true) := by
  rw [Row.Beside, ahead, behind]
  cases company : k.isEmpty with
  | true =>
    have none : k.front = none ∧ k.back = none := by simpa [Company.isEmpty] using company
    rw [none.1, none.2]
    cases before <;> cases after <;>
      simp [Place.isBeside, Place.before, Place.after, Decidable.or_iff_not_imp_left]
  | false =>
    obtain ⟨first, later⟩ := joined_of_plain (plain company)
    suffices besides : (if before = [] then none else some connective).or (k.front.map Prod.snd) =
        some .and ∨ (after.head?.map Clause.connective).or (k.back.map Prod.fst) = some .and by
      simpa using besides
    rcases eq_or_ne before [] with rfl | more
    · cases after with
      | nil => simpa using k.beside company
      | cons y after => exact .inr (congrArg some (later y (by simp)))
    · have joined : connective = .and := first more
      exact .inl (by rw [if_neg more, joined]; rfl)

theorem raw_list (tidy : AllTidy fl a IsCondition
    (before ++ .mk connective negated (.raw sql params) :: after)) :
    ListExchange fl a sql params
      (fun alone t => negated = true ∨ isLoose (t.text fl) = false ∨
        (Place.within before after).isBeside connective = false ∧ alone = true)
      (before ++ .mk connective negated (.raw sql params) :: after)
      (before ++ .mk connective negated (aside sql params) :: after) := by
  intro ps f ps' ran
  obtain ⟨tidyBefore, tidyHere, tidyAfter⟩ := allTidy_append tidy
  obtain ⟨t, here, there, front, back, written, ahead, behind, others⟩ :=
    clauseTokens_between tidyBefore tidyAfter ran
  rw [condition] at written
  obtain ⟨r, row⟩ := IsCondition.row (tidyHere _ _ _ written)
  obtain ⟨s, body, body', tight⟩ := body_rows row negated
  obtain ⟨g, ran', rows⟩ := others (.raw sql params) t (by rw [condition]; exact written)
  obtain ⟨f', run, rows'⟩ := others (aside sql params) _ (aside_ok.mpr ⟨t, written, rfl⟩)
  obtain ⟨rfl, _⟩ := Prod.mk.inj (Except.ok.inj (ran.symm.trans ran'))
  refine ⟨f', t, _, _, run, ⟨_, _, written⟩, rows s body, rows' s.unit body', ?_⟩
  intro k plain
  obtain ⟨front', back', ahead', behind', whole⟩ := Row.between_between k.front front back k.back
  rw [ahead] at ahead'
  rw [behind] at behind'
  rw [whole, whole, Row.alike_unit_iff, tight, beside_iff k plain ahead' behind', not_not, or_assoc]

theorem tidy_fill {raws : String → Prop} {x : Clause} (place : Place)
    (tidy : AllTidy fl a raws (place.fill x)) : Tidy fl a raws x.condition := by
  induction place generalizing x with
  | within before after => exact (allTidy_append tidy).2.1
  | grouped outer connective negated before after inductionHypothesis =>
    have group := inductionHypothesis tidy
    rw [Clause.condition, Tidy] at group
    exact (allTidy_append group).2.1

/-- Wherever a group stands, it makes as much of a difference as alone. -/
theorem Exchange.fill (swap : Exchange fl a sql params kept c c') (place : Place)
    (tidy : AllTidy fl a IsCondition (place.fill (.mk connective negated c))) :
    ListExchange fl a sql params (fun _ => kept) (place.fill (.mk connective negated c))
      (place.fill (.mk connective negated c')) := by
  induction place generalizing connective negated c c' with
  | within before after => exact swap.list tidy
  | grouped outer connective' negated' before after inductionHypothesis =>
    have group := tidy_fill outer tidy
    rw [Clause.condition, Tidy] at group
    exact inductionHypothesis ((swap.list group).group (by simp) (by simp)) tidy

theorem raw_fill (place : Place)
    (tidy : AllTidy fl a IsCondition (place.fill (.mk connective negated (.raw sql params)))) :
    ListExchange fl a sql params
      (fun alone t => negated = true ∨ isLoose (t.text fl) = false ∨
        place.isBeside connective = false ∧ (place.isGrouped || alone) = true)
      (place.fill (.mk connective negated (.raw sql params)))
      (place.fill (.mk connective negated (aside sql params))) := by
  cases place with
  | within before after => exact raw_list tidy
  | grouped outer connective' negated' before after =>
    have group := tidy_fill outer tidy
    rw [Clause.condition, Tidy] at group
    exact ((raw_list group).group (by simp) (by simp)).fill outer tidy

theorem predicate_ok {l : List Clause} (full : l ≠ []) : (predicate a l).run ps = .ok (f, ps') ↔
    ∃ g, (clauseTokens a true l).run ps = .ok (g, ps') ∧
      f = if hasAlternatives l then .lparen :: g ++ [.rparen] else g := by
  obtain ⟨x, r, rfl⟩ := List.exists_cons_of_ne_nil full
  constructor
  · intro ran
    obtain ⟨g, _, inner, ran⟩ := run_bind_ok.mp ran
    obtain ⟨rfl, rfl⟩ := run_pure_ok.mp ran
    exact ⟨g, inner, rfl⟩
  · rintro ⟨g, inner, rfl⟩
    exact run_bind_ok.mpr ⟨g, ps', inner, run_pure_ok.mpr ⟨rfl, rfl⟩⟩

theorem fill_ne_nil (place : Place) (x : Clause) : place.fill x ≠ [] := by
  induction place generalizing x with
  | within before after => simp [Place.fill]
  | grouped outer connective negated before after inductionHypothesis => exact inductionHypothesis _

theorem hasAlternatives_fill (place : Place) (c c' : Condition) :
    hasAlternatives (place.fill (.mk connective negated c)) =
      hasAlternatives (place.fill (.mk connective negated c')) := by
  induction place generalizing connective negated c c' with
  | within before after =>
    cases before with
    | nil => rfl
    | cons y before =>
      simp only [Place.fill, hasAlternatives, List.cons_append, List.tail_cons, List.any_append,
        List.any_cons]
      rfl
  | grouped outer connective' negated' before after inductionHypothesis =>
    exact inductionHypothesis _ _

theorem conjunction_append {fs gs : List Fragment} (full : fs ≠ []) (full' : gs ≠ []) :
    conjunction fl (fs ++ gs) = conjunction fl fs ++ Token.and.text fl ++ conjunction fl gs := by
  have text (fs : List Fragment) : conjunction fl fs = Fragment.text fl (between .and fs) :=
    (text_between fl .and fs).symm
  rw [text, text, text, between_append _ full full']
  simp [String.append_assoc]

theorem conjunction_singleton (f : Fragment) : conjunction fl [f] = f.text fl := rfl

theorem conjunction_cons (f : Fragment) {fs : List Fragment} (full : fs ≠ []) :
    conjunction fl (f :: fs) = f.text fl ++ Token.and.text fl ++ conjunction fl fs := by
  have whole : conjunction fl ([f] ++ fs) = _ := conjunction_append (by simp) full
  exact whole

theorem conjunction_row {fs : List Fragment} (full : fs ≠ [])
    (conditions : ∀ f ∈ fs, IsCondition (Fragment.text fl f)) :
    ∃ r, Row.Of (conjunction fl fs) r := by
  induction fs with
  | nil => exact absurd rfl full
  | cons f fs inductionHypothesis =>
    obtain ⟨here, later⟩ := List.forall_mem_cons.mp conditions
    obtain ⟨r, row⟩ := here.row
    rcases eq_or_ne fs [] with rfl | more
    · exact ⟨r, row⟩
    · obtain ⟨s, rows⟩ := inductionHypothesis more later
      rw [conjunction_cons f more]
      exact ⟨_, row.append fl .and rows⟩

/-- A predicate stands among others as between them. -/
theorem conjunction_between {front back : List Fragment}
    (conditions : ∀ f ∈ front ++ back, IsCondition (Fragment.text fl f)) :
    ∃ k : Company, (k.isEmpty = true ↔ front = [] ∧ back = []) ∧ ∀ f r,
      Row.Of (Fragment.text fl f) r →
        Row.Of (conjunction fl (front ++ f :: back)) (.between k.front r k.back) := by
  obtain ⟨before, after⟩ := List.forall_mem_append.mp conditions
  have behind : ∃ b : Option (Connective × Row), (∀ c, b.map Prod.fst = some c → c = .and) ∧
      (b.isNone = true ↔ back = []) ∧ ∀ f r, Row.Of (Fragment.text fl f) r →
        Row.Of (conjunction fl (f :: back)) (.between none r b) := by
    rcases eq_or_ne back [] with rfl | more
    · refine ⟨none, by simp, by simp, fun f r row => ?_⟩
      rw [conjunction_singleton]
      simpa [Row.between, Row.behind] using row
    · obtain ⟨s, rows⟩ := conjunction_row more after
      refine ⟨some (.and, s), by simp, by simp [more], fun f r row => ?_⟩
      rw [conjunction_cons f more]
      exact row.append fl .and rows
  obtain ⟨b, joined, empty, rows⟩ := behind
  rcases eq_or_ne front [] with rfl | more
  · exact ⟨⟨none, b, by simpa using joined⟩, by simpa [Company.isEmpty] using empty, rows⟩
  · obtain ⟨s, ahead⟩ := conjunction_row more before
    refine ⟨⟨some (s, .and), b, ?_⟩, by simp [Company.isEmpty, more], fun f r row => ?_⟩
    · rintro c (same | same)
      · exact (Option.some.inj same).symm
      · exact joined c same
    · rw [conjunction_append more (by simp)]
      exact ahead.append fl .and (rows f r row)

end Kept

/-- Raw SQL in a clause list keeps together beside any other predicates, as if it stood in
parentheses, if and only if it is negated, or has no `OR` outside of parentheses, or has no `AND`
beside it: not in its own list, and if that list is not in parentheses, not around it. Where it
keeps together, the conditions are true of the same rows with the parentheses and without. -/
theorem raw_unit_iff {fl : Flavor} {a : Labels} {sql : String} {params : Fields Value}
    {connective : Connective} {negated : Bool} (place : Place)
    (tidy : AllTidy fl a IsCondition (place.fill (.mk connective negated (.raw sql params))))
    {front back : List Fragment}
    (conditions : ∀ f ∈ front ++ back, IsCondition (Fragment.text fl f))
    {ps ps' : Params} {f : Fragment}
    (ran : (predicate a (place.fill (.mk connective negated (.raw sql params)))).run ps =
      .ok (f, ps')) :
    ∃ f' t p p',
      (predicate a (place.fill (.mk connective negated (aside sql params)))).run ps =
        .ok (f', ps') ∧
      IsWritten a sql params t ∧
      readText? (conjunction fl (front ++ f :: back)) = some p ∧
      readText? (conjunction fl (front ++ f' :: back)) = some p' ∧
      (p.Alike p' → ∀ truth, p.eval truth = p'.eval truth) ∧
      (p.Alike p' ↔ negated = true ∨ isLoose (t.text fl) = false ∨
        place.isBeside connective = false ∧ (place.isGrouped = true ∨
          hasAlternatives (place.fill (.mk connective negated (.raw sql params))) = true ∨
          front = [] ∧ back = [])) := by
  obtain ⟨g, inner, rfl⟩ := (predicate_ok (fill_ne_nil place _)).mp ran
  obtain ⟨g', t, r, r', inner', written, row, row', same⟩ := raw_fill place tidy _ _ _ inner
  obtain ⟨k, empty, rows⟩ := conjunction_between conditions
  have alternatives : hasAlternatives (place.fill (.mk connective negated (aside sql params))) =
      hasAlternatives (place.fill (.mk connective negated (.raw sql params))) :=
    hasAlternatives_fill place _ _
  cases plain : hasAlternatives (place.fill (.mk connective negated (.raw sql params))) with
  | false =>
    refine ⟨g', t, _, _, (predicate_ok (fill_ne_nil place _)).mpr
      ⟨g', inner', by simp [alternatives, plain]⟩, written, (rows _ r (by simpa using row)).read,
      (rows _ r' row').read, fun alike truth => alike.eval_eq truth, ?_⟩
    simp [same k (fun _ => plain), ← empty]
  | true =>
    refine ⟨_, t, _, _, (predicate_ok (fill_ne_nil place _)).mpr
      ⟨g', inner', by rw [alternatives, plain, if_pos rfl]⟩, written,
      (rows _ r.unit (enclosed_row row)).read, (rows _ r'.unit (enclosed_row row')).read,
      fun alike truth => alike.eval_eq truth, ?_⟩
    have alone := same .none (by simp [Company.none, Company.isEmpty])
    rw [Company.formula_none, Company.formula_none] at alone
    apply Row.alike_between_iff.trans
    rw [alone]
    simp [Company.none, Company.isEmpty]

def publicOrStaff : String := "is_public OR is_staff"

def publicFragment : Fragment := publicOrStaff.toList.map (fun c => .sql c.toString)

theorem raw_publicOrStaff (ps : Params) :
    (raw (.ofTable "posts") publicOrStaff []).run ps = .ok (publicFragment, ps) := rfl

theorem isCondition_publicOrStaff : IsCondition (Fragment.text .postgresql publicFragment) := by
  have words : scan? (Fragment.text .postgresql publicFragment) =
      some ([.sql "is_public"] ++ .or :: [.sql "is_staff"]) := rfl
  exact ⟨_, _, words, .or (.all (.one (.words (by simp) (by decide))))
    (.one (.words (by simp) (by decide)))⟩

def ofTenantSeven : Clause := .mk .and false (.compare ⟨.this, "tenant"⟩ .eq (.int 7))

theorem raw_unit_iff_posts : ∃ f f' ps p p',
    (predicate (.ofTable "posts") [.mk .and false (.raw publicOrStaff []), ofTenantSeven]).run
      .empty = .ok (f, ps) ∧
    (predicate (.ofTable "posts") [.mk .and false (aside publicOrStaff []), ofTenantSeven]).run
      .empty = .ok (f', ps) ∧
    readText? (conjunction .postgresql [f]) = some p ∧
    readText? (conjunction .postgresql [f']) = some p' ∧ ¬ p.Alike p' := by
  have tidy : AllTidy .postgresql (.ofTable "posts") IsCondition
      ((Place.within [] [ofTenantSeven]).fill (.mk .and false (.raw publicOrStaff []))) := by
    refine ⟨?_, trivial, trivial⟩
    intro ps f ps' ran
    obtain ⟨rfl, _⟩ := Prod.mk.inj (Except.ok.inj ((raw_publicOrStaff ps).symm.trans ran))
    exact isCondition_publicOrStaff
  have ran : (predicate (.ofTable "posts")
      ((Place.within [] [ofTenantSeven]).fill (.mk .and false (.raw publicOrStaff [])))).run
      .empty = .ok (publicFragment ++ .and :: [.column "posts" "tenant", .sql " = ",
        .param 1 (.int 7)], (Params.empty.push (.int 7)).2) := rfl
  have alone : ∀ f ∈ ([] : List Fragment) ++ [], IsCondition (Fragment.text .postgresql f) := by
    simp
  obtain ⟨f', t, p, p', ran', ⟨ps, ps', written⟩, reads, reads', _, same⟩ :=
    raw_unit_iff (.within [] [ofTenantSeven]) tidy alone ran
  obtain ⟨rfl, _⟩ := Prod.mk.inj (Except.ok.inj ((raw_publicOrStaff ps).symm.trans written))
  refine ⟨_, f', _, p, p', ran, ran', reads, reads', fun alike => ?_⟩
  have loose : isLoose (Fragment.text .postgresql publicFragment) = true := rfl
  simp [same, loose, Place.isBeside, Place.before, Place.after, ofTenantSeven,
    Clause.connective] at alike

/-- Of a public post, and of nothing else. -/
def onlyPublic (words : Fragment) : Option Bool :=
  some (Fragment.text .postgresql words = "is_public")

/-- A public post of any tenant is let through, which it would not be with parentheses around the
raw SQL. -/
theorem raw_regrouped_posts :
    (∃ f ps p, (predicate (.ofTable "posts")
        [.mk .and false (.raw publicOrStaff []), ofTenantSeven]).run .empty = .ok (f, ps) ∧
      readText? (f.text .postgresql) = some p ∧ p.eval onlyPublic = some true) ∧
    ∃ f ps p, (predicate (.ofTable "posts")
        [.mk .and false (aside publicOrStaff []), ofTenantSeven]).run .empty = .ok (f, ps) ∧
      readText? (f.text .postgresql) = some p ∧ p.eval onlyPublic = some false :=
  ⟨⟨_, _, _, rfl, rfl, rfl⟩, ⟨_, _, _, rfl, rfl, rfl⟩⟩

end TreeQuery.Sql
