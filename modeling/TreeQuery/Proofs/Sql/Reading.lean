import TreeQuery.Sql.Statement

/-!
How a database reads a condition: `NOT` binds closer than `AND`, and `AND` closer than `OR`. The
grammar says which formula a fragment stands for, and a reader that goes over the fragment once
finds it. Truth has a third value, for what is not known of a null.
-/

namespace TreeQuery.Sql

inductive Formula where
  /-- Tokens without a connective or a parenthesis among them. -/
  | atom (words : Fragment)
  | not (p : Formula)
  | and (p q : Formula)
  | or (p q : Formula)

namespace Formula

def conjoin : Option Bool → Option Bool → Option Bool
  | some true, b => b
  | some false, _ => some false
  | none, some false => some false
  | none, _ => none

def disjoin : Option Bool → Option Bool → Option Bool
  | some false, b => b
  | some true, _ => some true
  | none, some true => some true
  | none, _ => none

/-- The truth of a formula, none if it is unknown, out of the truth of its atoms. -/
def eval (truth : Fragment → Option Bool) : Formula → Option Bool
  | .atom words => truth words
  | .not p => (p.eval truth).map (fun b => !b)
  | .and p q => conjoin (p.eval truth) (q.eval truth)
  | .or p q => disjoin (p.eval truth) (q.eval truth)

theorem conjoin_eq_true {a b : Option Bool} :
    conjoin a b = some true ↔ a = some true ∧ b = some true := by
  rcases a with _ | (_ | _) <;> rcases b with _ | (_ | _) <;> simp [conjoin]

theorem disjoin_eq_true {a b : Option Bool} :
    disjoin a b = some true ↔ a = some true ∨ b = some true := by
  rcases a with _ | (_ | _) <;> rcases b with _ | (_ | _) <;> simp [disjoin]

end Formula

def Token.isWord : Token → Bool
  | .lparen | .rparen | .and | .or | .not => false
  | _ => true

def parenthesised (f : Fragment) : Fragment := .lparen :: f ++ [.rparen]

/-- What a part of a condition is an operand of. -/
inductive Rank where
  | operand
  | conjunction
  | disjunction

/-- The grammar of conditions. -/
inductive Reads : Rank → Fragment → Formula → Prop
  | words {f : Fragment} (full : f ≠ []) (plain : ∀ t ∈ f, t.isWord = true) :
      Reads .operand f (.atom f)
  | group {f : Fragment} {p : Formula} (inside : Reads .disjunction f p) :
      Reads .operand (parenthesised f) p
  | not {f : Fragment} {p : Formula} (negated : Reads .operand f p) :
      Reads .operand (.not :: f) (.not p)
  | one {f : Fragment} {p : Formula} (only : Reads .operand f p) : Reads .conjunction f p
  | and {f g : Fragment} {p q : Formula} (left : Reads .conjunction f p)
      (right : Reads .operand g q) : Reads .conjunction (f ++ .and :: g) (.and p q)
  | all {f : Fragment} {p : Formula} (only : Reads .conjunction f p) : Reads .disjunction f p
  | or {f g : Fragment} {p q : Formula} (left : Reads .disjunction f p)
      (right : Reads .conjunction g q) : Reads .disjunction (f ++ .or :: g) (.or p q)

namespace Reading

inductive Operand where
  | words (f : Fragment)
  | group (p : Formula)

def Operand.formula : Operand → Formula
  | .words f => .atom f
  | .group p => p

def negated : Nat → Formula → Formula
  | 0, p => p
  | n + 1, p => negated n (.not p)

/-- What has been read between two parentheses so far. -/
structure Level where
  alternatives : Option Formula
  conjuncts : Option Formula
  negations : Nat
  operand : Option Operand

namespace Level

def start : Level := ⟨none, none, 0, none⟩

def value? (l : Level) : Option Formula :=
  l.operand.map (fun x => negated l.negations x.formula)

def conjunction? (l : Level) : Option Formula :=
  l.value?.map (fun p => match l.conjuncts with
    | none => p
    | some c => .and c p)

def formula? (l : Level) : Option Formula :=
  l.conjunction?.map (fun p => match l.alternatives with
    | none => p
    | some a => .or a p)

def word? (l : Level) (t : Token) : Option Level :=
  match l.operand with
  | none => some { l with operand := some (.words [t]) }
  | some (.words f) => some { l with operand := some (.words (f ++ [t])) }
  | some (.group _) => none

def group? (l : Level) (p : Formula) : Option Level :=
  match l.operand with
  | none => some { l with operand := some (.group p) }
  | some _ => none

def not? (l : Level) : Option Level :=
  match l.operand with
  | none => some { l with negations := l.negations + 1 }
  | some _ => none

def and? (l : Level) : Option Level :=
  l.conjunction?.map (fun c => ⟨l.alternatives, some c, 0, none⟩)

def or? (l : Level) : Option Level := l.formula?.map (fun a => ⟨some a, none, 0, none⟩)

end Level

/-- Reads on from a level, below which others are still open. -/
def readFrom : List Level → Level → Fragment → Option Formula
  | [], l, [] => l.formula?
  | _ :: _, _, [] => none
  | s, l, .lparen :: f => if l.operand.isNone then readFrom (l :: s) .start f else none
  | [], _, .rparen :: _ => none
  | outer :: s, l, .rparen :: f =>
    (l.formula?.bind outer.group?).bind (fun l => readFrom s l f)
  | s, l, .and :: f => l.and?.bind (fun l => readFrom s l f)
  | s, l, .or :: f => l.or?.bind (fun l => readFrom s l f)
  | s, l, .not :: f => l.not?.bind (fun l => readFrom s l f)
  | s, l, t :: f => (l.word? t).bind (fun l => readFrom s l f)

end Reading

/-- The formula that a condition stands for. -/
def read? (f : Fragment) : Option Formula := Reading.readFrom [] .start f

namespace Reading

/-- A part ends where these tokens follow. -/
def Closed (rest : Fragment) : Prop :=
  ∀ t ∈ rest.head?, t = .rparen ∨ t = .and ∨ t = .or

/-- Levels that go on alike once their operand is closed. -/
structure Alike (l m : Level) : Prop where
  alternatives : l.alternatives = m.alternatives
  conjuncts : l.conjuncts = m.conjuncts
  value : l.value? = m.value?

variable {s : List Level} {l m : Level} {f rest : Fragment} {p : Formula}

theorem Alike.conjunction (h : Alike l m) : l.conjunction? = m.conjunction? := by
  rw [Level.conjunction?, Level.conjunction?, h.value, h.conjuncts]

theorem Alike.formula (h : Alike l m) : l.formula? = m.formula? := by
  rw [Level.formula?, Level.formula?, h.conjunction, h.alternatives]

theorem readFrom_alike (h : Alike l m) (closed : Closed rest) :
    readFrom s l rest = readFrom s m rest := by
  match rest with
  | [] =>
    cases s with
    | nil => rw [readFrom, readFrom, h.formula]
    | cons outer s => rw [readFrom, readFrom]
  | t :: rest =>
    rcases closed t rfl with rfl | rfl | rfl
    · cases s with
      | nil => rw [readFrom, readFrom]
      | cons outer s => rw [readFrom, readFrom, h.formula]
    · rw [readFrom, readFrom, Level.and?, Level.and?, h.conjunction, h.alternatives]
    · rw [readFrom, readFrom, Level.or?, Level.or?, h.formula]

theorem readFrom_word {t : Token} (word : t.isWord = true) :
    readFrom s l (t :: f) = (l.word? t).bind (fun l => readFrom s l f) := by
  cases t with
  | lparen | rparen | and | or | not => cases word
  | sql _ | column _ _ | label _ | param _ _ => cases s <;> rw [readFrom] <;> simp

theorem readFrom_lparen (idle : l.operand = none) :
    readFrom s l (.lparen :: f) = readFrom (l :: s) .start f := by
  cases s <;> rw [readFrom] <;> simp [idle]

/-- Words add to the words before them. -/
theorem readFrom_words {before : Fragment} (here : l.operand = some (.words before))
    (plain : ∀ t ∈ f, t.isWord = true) :
    readFrom s l (f ++ rest) =
      readFrom s { l with operand := some (.words (before ++ f)) } rest := by
  induction f generalizing l before with
  | nil =>
    rw [List.nil_append, List.append_nil, ← here]
  | cons t f inductionHypothesis =>
    obtain ⟨word, plain⟩ := List.forall_mem_cons.mp plain
    rw [List.cons_append, readFrom_word word, Level.word?, here]
    apply (inductionHypothesis rfl plain).trans
    simp

/-- What reading a part comes to: at a place for an operand, it becomes the operand; at the start
of a conjunction or of a condition it becomes all that has been read there. -/
def Becomes : Rank → Level → Formula → Level → Prop
  | .operand, l, p, m =>
    m.alternatives = l.alternatives ∧ m.conjuncts = l.conjuncts ∧
      m.value? = some (negated l.negations p)
  | .conjunction, l, p, m => m.alternatives = l.alternatives ∧ m.conjunction? = some p
  | .disjunction, _, p, m => m.formula? = some p

/-- Where a part may start. -/
def Fits : Rank → Level → Prop
  | .operand, l => l.operand = none
  | .conjunction, l => l.operand = none ∧ l.negations = 0 ∧ l.conjuncts = none
  | .disjunction, l => l = .start

theorem becomes_and {n : Level} {c q : Formula}
    (right : Becomes .operand ⟨m.alternatives, some c, 0, none⟩ q n) :
    n.alternatives = m.alternatives ∧ n.conjunction? = some (.and c q) := by
  obtain ⟨alternatives, conjuncts, value⟩ := right
  refine ⟨alternatives, ?_⟩
  rw [Level.conjunction?, value, conjuncts]
  rfl

theorem reads_run {r : Rank} (h : Reads r f p) : ∀ {s l rest}, Fits r l → Closed rest →
    ∃ m, Becomes r l p m ∧ readFrom s l (f ++ rest) = readFrom s m rest := by
  induction h with
  | @words f full plain =>
    intro s l rest idle _
    obtain ⟨t, f, rfl⟩ := List.exists_cons_of_ne_nil full
    obtain ⟨word, plain⟩ := List.forall_mem_cons.mp plain
    refine ⟨{ l with operand := some (.words (t :: f)) }, ⟨rfl, rfl, rfl⟩, ?_⟩
    rw [List.cons_append, readFrom_word word, Level.word?, idle]
    have first : Level.operand { l with operand := some (.words [t]) } = some (.words [t]) := rfl
    exact readFrom_words first plain
  | @group f p inside inductionHypothesis =>
    intro s l rest idle _
    have closing : Closed (.rparen :: rest) := by simp [Closed]
    obtain ⟨m, formula, run⟩ := inductionHypothesis (s := l :: s) rfl closing
    refine ⟨{ l with operand := some (.group p) }, ⟨rfl, rfl, rfl⟩, ?_⟩
    rw [parenthesised, List.append_assoc, List.cons_append, readFrom_lparen idle,
      List.singleton_append, run, readFrom, formula, Option.bind_some, Level.group?, idle]
    rfl
  | @not f p negation inductionHypothesis =>
    intro s l rest idle closed
    have idle' : l.operand = none := idle
    obtain ⟨m, becomes, run⟩ := inductionHypothesis (s := s)
      (l := { l with negations := l.negations + 1 }) idle closed
    refine ⟨m, becomes, ?_⟩
    rw [List.cons_append, ← run]
    cases s <;> rw [readFrom] <;> simp [Level.not?, idle']
  | one only inductionHypothesis =>
    intro s l rest fits closed
    obtain ⟨idle, plain, first⟩ := fits
    obtain ⟨m, ⟨alternatives, conjuncts, value⟩, run⟩ := inductionHypothesis idle closed
    refine ⟨m, ⟨alternatives, ?_⟩, run⟩
    rw [Level.conjunction?, value, conjuncts, plain, first]
    rfl
  | @and f g p q left right leftHypothesis rightHypothesis =>
    intro s l rest fits closed
    have more : Closed (.and :: (g ++ rest)) := by simp [Closed]
    obtain ⟨m, ⟨alternatives, conjunction⟩, run⟩ := leftHypothesis (s := s) fits more
    obtain ⟨n, becomes, run'⟩ :=
      rightHypothesis (s := s) (l := ⟨m.alternatives, some p, 0, none⟩) rfl closed
    obtain ⟨kept, joined⟩ := becomes_and becomes
    refine ⟨n, ⟨kept.trans alternatives, joined⟩, ?_⟩
    rw [List.append_assoc, List.cons_append, run, ← run']
    cases s <;> rw [readFrom] <;> simp [Level.and?, conjunction]
  | all only inductionHypothesis =>
    intro s l rest fits closed
    subst fits
    obtain ⟨m, ⟨alternatives, conjunction⟩, run⟩ :=
      inductionHypothesis (l := .start) ⟨rfl, rfl, rfl⟩ closed
    refine ⟨m, ?_, run⟩
    rw [Becomes, Level.formula?, conjunction, alternatives]
    rfl
  | @or f g p q left right leftHypothesis rightHypothesis =>
    intro s l rest fits closed
    have more : Closed (.or :: (g ++ rest)) := by simp [Closed]
    obtain ⟨m, formula, run⟩ := leftHypothesis (s := s) fits more
    obtain ⟨n, ⟨alternatives, conjunction⟩, run'⟩ :=
      rightHypothesis (s := s) (l := ⟨some p, none, 0, none⟩) ⟨rfl, rfl, rfl⟩ closed
    refine ⟨n, ?_, ?_⟩
    · rw [Becomes, Level.formula?, conjunction, alternatives]
      rfl
    · have formula' : m.formula? = some p := formula
      rw [List.append_assoc, List.cons_append, run, ← run']
      cases s <;> rw [readFrom] <;> simp [Level.or?, formula']

/-- An operand reads the same in parentheses, wherever an operand can stand. -/
theorem readFrom_parenthesised (h : Reads .operand f p) (idle : l.operand = none)
    (closed : Closed rest) :
    readFrom s l (f ++ rest) = readFrom s l (parenthesised f ++ rest) := by
  obtain ⟨m, ⟨alternatives, conjuncts, value⟩, run⟩ := reads_run h (s := s) idle closed
  obtain ⟨n, ⟨alternatives', conjuncts', value'⟩, run'⟩ :=
    reads_run (.group (.all (.one h))) (s := s) idle closed
  rw [run, run']
  exact readFrom_alike ⟨alternatives.trans alternatives'.symm, conjuncts.trans conjuncts'.symm,
    value.trans value'.symm⟩ closed

/-- Whatever stands before an `AND`, what follows it is read from a place for an operand. -/
theorem readFrom_congr {f g : Fragment}
    (same : ∀ s l, l.operand = none → readFrom s l f = readFrom s l g) (before : Fragment) :
    ∀ s l, readFrom s l (before ++ .and :: f) = readFrom s l (before ++ .and :: g) := by
  induction before with
  | nil =>
    intro s l
    have after (h : Fragment) : readFrom s l (.and :: h) = l.and?.bind (readFrom s · h) := by
      cases s <;> rw [readFrom]
    rw [List.nil_append, List.nil_append, after, after, Level.and?]
    cases l.conjunction? with
    | none => rfl
    | some c => exact same _ _ rfl
  | cons t before inductionHypothesis =>
    intro s l
    rw [List.cons_append, List.cons_append]
    cases t with
    | lparen => cases s <;> simp only [readFrom, inductionHypothesis]
    | rparen => cases s <;> simp only [readFrom, inductionHypothesis]
    | and | or | not => cases s <;> simp only [readFrom, inductionHypothesis]
    | sql _ | column _ _ | label _ | param _ _ =>
      rw [readFrom_word rfl, readFrom_word rfl]
      simp only [inductionHypothesis]

end Reading

open Reading

/-- A condition of the grammar is read as the formula that the grammar gives it. -/
theorem read?_of_reads {f : Fragment} {p : Formula} (h : Reads .disjunction f p) :
    read? f = some p := by
  have closed : Closed [] := by simp [Closed]
  obtain ⟨m, formula, run⟩ := reads_run h (s := []) rfl closed
  rw [List.append_nil] at run
  rw [read?, run, readFrom]
  exact formula

theorem between_append (t : Token) {fs gs : List Fragment} (hf : fs ≠ []) (hg : gs ≠ []) :
    between t (fs ++ gs) = between t fs ++ t :: between t gs := by
  induction fs with
  | nil => exact absurd rfl hf
  | cons f fs inductionHypothesis =>
    cases fs with
    | nil =>
      obtain ⟨g, gs, rfl⟩ := List.exists_cons_of_ne_nil hg
      rfl
    | cons f' fs =>
      have later := inductionHypothesis (by simp)
      simp only [List.cons_append, between] at later ⊢
      rw [later, List.append_assoc, List.cons_append]

/-- Among any conditions that all have to hold, an operand stays apart from the others. -/
theorem read?_between {f : Fragment} {p : Formula} (h : Reads .operand f p)
    (before after : List Fragment) :
    read? (between .and (before ++ f :: after)) =
      read? (between .and (before ++ parenthesised f :: after)) := by
  have here (s : List Level) (l : Level) (idle : l.operand = none) :
      readFrom s l (between .and (f :: after)) =
        readFrom s l (between .and (parenthesised f :: after)) := by
    cases after with
    | nil =>
      have closed : Closed [] := by simp [Closed]
      have alone := readFrom_parenthesised h (s := s) idle closed
      rw [List.append_nil, List.append_nil] at alone
      exact alone
    | cons g after => exact readFrom_parenthesised h idle (by simp [Closed])
  cases before with
  | nil => exact here [] .start rfl
  | cons g before =>
    rw [between_append _ (by simp) (by simp), between_append _ (by simp) (by simp)]
    exact readFrom_congr here _ _ _

/-- Fragments joined by a token are written as their texts joined by its text. -/
theorem text_between (fl : Flavor) (t : Token) (fs : List Fragment) :
    Fragment.text fl (between t fs) =
      String.intercalate (t.text fl) (fs.map (Fragment.text fl)) := by
  induction fs with
  | nil => rfl
  | cons f fs inductionHypothesis =>
    cases fs with
    | nil => simp [between]
    | cons g fs =>
      have written : Fragment.text fl (between t (f :: g :: fs)) =
          Fragment.text fl f ++ t.text fl ++ Fragment.text fl (between t (g :: fs)) := by
        simp [between, Fragment.text, String.append_assoc]
      rw [written, inductionHypothesis, List.map_cons, List.map_cons, List.map_cons,
        String.intercalate_cons_cons]

end TreeQuery.Sql
