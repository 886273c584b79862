import TreeQuery.Proofs.Sql.Tokens
import TreeQuery.Text.Identifier

/-!
How a database goes over the text of a condition before it is grouped. One pass splits the text
into words, with quoted names and strings in one piece. Another finds the parentheses and
connectives that belong to the words of an operand, as those of a call, a list, a sub-query, a
`BETWEEN`, a `CASE` or an `IS NOT NULL`. What is left groups operands.
-/

namespace TreeQuery.Sql

namespace Scanning

/-- What has been read of a word. -/
inductive Place where
  | gap
  | word (cs : List Char)
  | symbol (c : Char)
  | quoted (double : Bool) (cs : List Char)
  /-- At the quote that ends a quotation, unless another one follows it. -/
  | closed (double : Bool) (cs : List Char)
  | comment

def quoteChar (double : Bool) : Char := if double then '"' else '\''

def isWordChar (c : Char) : Bool :=
  c.isAlphanum || c = '_' || c = '.' || c = '$' || c = '?' || 128 ≤ c.toNat

def isKeyword (name : String) (cs : List Char) : Bool := cs.map Char.toUpper = name.toList

def wordToken (cs : List Char) : Token :=
  if isKeyword "AND" cs then .and
  else if isKeyword "OR" cs then .or
  else if isKeyword "NOT" cs then .not
  else .sql (String.ofList cs)

namespace Place

/-- The token of the word that ends here. -/
def ended : Place → Fragment
  | .word cs => [wordToken cs]
  | .symbol c => [.sql c.toString]
  | .closed _ cs => [.sql (String.ofList cs)]
  | .gap | .quoted _ _ | .comment => []

def isComplete : Place → Bool
  | .quoted _ _ | .comment => false
  | _ => true

def start (c : Char) : Place × Fragment :=
  if c.isWhitespace then (.gap, [])
  else if c = '(' then (.gap, [.lparen])
  else if c = ')' then (.gap, [.rparen])
  else if c = '"' then (.quoted true [c], [])
  else if c = '\'' then (.quoted false [c], [])
  else if isWordChar c then (.word [c], [])
  else (.symbol c, [])

def next (p : Place) (c : Char) : Place × Fragment := ((start c).1, p.ended ++ (start c).2)

def opensComment (c d : Char) : Bool := (c = '-' && d = '-') || (c = '/' && d = '*')

def step : Place → Char → Place × Fragment
  | .gap, c => next .gap c
  | .word cs, c => if isWordChar c then (.word (cs ++ [c]), []) else next (.word cs) c
  | .symbol d, c => if opensComment d c then (.comment, []) else next (.symbol d) c
  | .quoted double cs, c =>
    (if c = quoteChar double then .closed double (cs ++ [c]) else .quoted double (cs ++ [c]), [])
  | .closed double cs, c =>
    if c = quoteChar double then (.quoted double (cs ++ [c]), []) else next (.closed double cs) c
  | .comment, _ => (.comment, [])

end Place

def splitFrom : Place → List Char → Place × Fragment
  | p, [] => (p, [])
  | p, c :: cs => ((splitFrom (p.step c).1 cs).1, (p.step c).2 ++ (splitFrom (p.step c).1 cs).2)

/-- The words of a text, unless a quotation or a comment is open at its end. -/
def split? (cs : List Char) : Option Fragment :=
  if (splitFrom .gap cs).1.isComplete then
    some ((splitFrom .gap cs).2 ++ (splitFrom .gap cs).1.ended)
  else none

/-- Where a token stands. In a range, which `BETWEEN` begins, the next `AND` is a word. -/
inductive Spot where
  /-- Where an operand starts. -/
  | start
  | inside (range : Bool)
  /-- Between the parentheses of an operand, or from its `CASE` to its `END`. -/
  | nested (range byCase : Bool) (depth : Nat)
  deriving DecidableEq

def isNamed (name : String) : Token → Bool
  | .sql s => isKeyword name s.toList
  | _ => false

def opens (byCase : Bool) : Token → Bool
  | .lparen => true
  | t => byCase && isNamed "CASE" t

def closes (byCase : Bool) : Token → Bool
  | .rparen => true
  | t => byCase && isNamed "END" t

/-- A token as a word. -/
def spelled : Token → Token
  | .lparen => .sql "("
  | .rparen => .sql ")"
  | .and => .sql "AND"
  | .or => .sql "OR"
  | .not => .sql "NOT"
  | t => t

namespace Spot

def afterWord (range : Bool) (t : Token) : Spot :=
  if isNamed "CASE" t then .nested range true 0 else .inside (range || isNamed "BETWEEN" t)

def step : Spot → Token → Spot × Token
  | .start, .lparen => (.start, .lparen)
  | .start, .not => (.start, .not)
  | .inside range, .lparen => (.nested range false 0, .sql "(")
  | .inside range, .not => (.inside range, .sql "NOT")
  | .inside true, .and => (.inside false, .sql "AND")
  | .start, .and | .inside false, .and => (.start, .and)
  | .start, .or | .inside _, .or => (.start, .or)
  | .start, .rparen | .inside _, .rparen => (.inside false, .rparen)
  | .start, t => (afterWord false t, t)
  | .inside range, t => (afterWord range t, t)
  | .nested range byCase depth, t =>
    if opens byCase t then (.nested range byCase (depth + 1), spelled t)
    else if closes byCase t then match depth with
      | 0 => (.inside range, spelled t)
      | depth + 1 => (.nested range byCase depth, spelled t)
    else (.nested range byCase depth, spelled t)

end Spot

def settle : Spot → Fragment → Spot × Fragment
  | s, [] => (s, [])
  | s, t :: f => ((settle (s.step t).1 f).1, (s.step t).2 :: (settle (s.step t).1 f).2)

end Scanning

open Scanning

/-- The text of a condition as the words of its operands and what groups these. -/
def scan? (s : String) : Option Fragment :=
  (split? s.toList).bind (fun f =>
    if (settle .start f).1 = .inside false then some (settle .start f).2 else none)

/-- The formula that the text of a condition stands for. -/
def readText? (s : String) : Option Formula := (scan? s).bind read?

namespace Scanning

theorem splitFrom_append (p : Place) (s t : List Char) : splitFrom p (s ++ t) =
    ((splitFrom (splitFrom p s).1 t).1,
      (splitFrom p s).2 ++ (splitFrom (splitFrom p s).1 t).2) := by
  induction s generalizing p with
  | nil => simp [splitFrom]
  | cons c s inductionHypothesis => simp [splitFrom, inductionHypothesis]

theorem settle_append (s : Spot) (f g : Fragment) : settle s (f ++ g) =
    ((settle (settle s f).1 g).1, (settle s f).2 ++ (settle (settle s f).1 g).2) := by
  induction f generalizing s with
  | nil => simp [settle]
  | cons t f inductionHypothesis => simp [settle, inductionHypothesis]

/-- Such a character ends the word before it. -/
def Parts (c : Char) : Prop :=
  isWordChar c = false ∧ c ≠ '"' ∧ c ≠ '\'' ∧ c ≠ '-' ∧ c ≠ '*'

instance (c : Char) : Decidable (Parts c) := inferInstanceAs (Decidable (_ ∧ _))

theorem Place.step_of_parts {c : Char} (parts : Parts c) :
    (p : Place) → p.isComplete = true → p.step c = p.next c
  | .gap, _ => rfl
  | .word cs, _ => by simp [Place.step, parts.1]
  | .symbol d, _ => by simp [Place.step, Place.opensComment, parts.2]
  | .closed double cs, _ => by cases double <;> simp [Place.step, quoteChar, parts.2]

section Split

variable {s t : List Char} {f g : Fragment}

theorem split?_of_run {p : Place} (run : splitFrom .gap s = (p, g))
    (complete : p.isComplete = true) : split? s = some (g ++ p.ended) := by
  rw [split?, run, if_pos complete]

theorem run_of_split? (h : split? s = some f) : ∃ p g, splitFrom .gap s = (p, g) ∧
    p.isComplete = true ∧ f = g ++ p.ended := by
  unfold split? at h
  split at h
  · rename_i complete
    exact ⟨_, _, rfl, complete, (Option.some.inj h).symm⟩
  · cases h

/-- A text goes on as if what follows stood alone. -/
theorem split?_append {c : Char} (parts : Parts c) (front : split? s = some f) (t : List Char) :
    split? (s ++ c :: t) = (split? (c :: t)).map (f ++ ·) := by
  obtain ⟨p, g, run, complete, rfl⟩ := run_of_split? front
  have alone : Place.gap.step c = ((Place.start c).1, (Place.start c).2) := rfl
  have after : p.step c = ((Place.start c).1, p.ended ++ (Place.start c).2) :=
    Place.step_of_parts parts p complete
  simp only [split?, splitFrom_append, run, splitFrom, after, alone]
  split <;> simp

theorem split?_space (t : List Char) : split? (' ' :: t) = split? t := rfl

theorem split?_lparen (t : List Char) : split? ('(' :: t) = (split? t).map (.lparen :: ·) := by
  have run : splitFrom .gap ('(' :: t) =
      ((splitFrom .gap t).1, .lparen :: (splitFrom .gap t).2) := rfl
  simp only [split?, run]
  split <;> simp

theorem split?_rparen (t : List Char) : split? (')' :: t) = (split? t).map (.rparen :: ·) := by
  have run : splitFrom .gap (')' :: t) =
      ((splitFrom .gap t).1, .rparen :: (splitFrom .gap t).2) := rfl
  simp only [split?, run]
  split <;> simp

theorem split?_comma (t : List Char) :
    split? (',' :: ' ' :: t) = (split? t).map (.sql "," :: ·) := by
  have run : splitFrom .gap (',' :: ' ' :: t) =
      ((splitFrom .gap t).1, .sql "," :: (splitFrom .gap t).2) := rfl
  simp only [split?, run]
  split <;> simp

/-- Two texts with a blank between them. -/
theorem split?_spaced (front : split? s = some f) (back : split? t = some g) :
    split? (s ++ ' ' :: t) = some (f ++ g) := by
  rw [split?_append (by decide) front, split?_space, back]
  rfl

theorem splitFrom_word {cs : List Char} (plain : ∀ c ∈ cs, isWordChar c = true)
    (before : List Char) : splitFrom (.word before) cs = (.word (before ++ cs), []) := by
  induction cs generalizing before with
  | nil => simp [splitFrom]
  | cons c cs inductionHypothesis =>
    obtain ⟨first, plain⟩ := List.forall_mem_cons.mp plain
    have step : (Place.word before).step c = (.word (before ++ [c]), []) := if_pos first
    rw [splitFrom, step, inductionHypothesis plain]
    simp

/-- A quotation goes on up to the first quote that is not doubled. -/
theorem splitFrom_escape (cs before : List Char) :
    splitFrom (.quoted true before) (Identifier.escape cs ++ ['"']) =
      (.closed true (before ++ Identifier.escape cs ++ ['"']), []) := by
  induction cs generalizing before with
  | nil => simp [Identifier.escape, splitFrom, Place.step, quoteChar]
  | cons c cs inductionHypothesis =>
    by_cases quote : c = '"'
    · have twice : Identifier.escape (c :: cs) = '"' :: '"' :: Identifier.escape cs := if_pos quote
      have here := inductionHypothesis (before ++ ['"', '"'])
      rw [twice]
      simp only [List.cons_append, splitFrom, Place.step, quoteChar, if_true, List.append_assoc,
        List.nil_append] at here ⊢
      rw [here]
    · have once : Identifier.escape (c :: cs) = c :: Identifier.escape cs := if_neg quote
      have here := inductionHypothesis (before ++ [c])
      rw [once]
      simp only [List.cons_append, splitFrom, Place.step, quoteChar, if_true, if_neg quote,
        List.append_assoc, List.nil_append] at here ⊢
      rw [here]

theorem splitFrom_quote {p : Place} (opening : p.step '"' = (.quoted true ['"'], p.ended))
    (name : String) : splitFrom p (Identifier.quote name).toList =
      (.closed true (Identifier.quote name).toList, p.ended) := by
  rw [Identifier.quote, String.toList_ofList, List.cons_append, splitFrom, opening,
    splitFrom_escape]
  simp

theorem split?_qualified (table column : String) : split? (qualified table column).toList =
    some [.sql (Identifier.quote table), .sql ".", .sql (Identifier.quote column)] := by
  have dotted : splitFrom (.closed true (Identifier.quote table).toList)
      ('.' :: (Identifier.quote column).toList) = (.closed true (Identifier.quote column).toList,
        [.sql (Identifier.quote table), .sql "."]) := by
    have dot : (Place.closed true (Identifier.quote table).toList).step '.' =
        (.word ['.'], [.sql (Identifier.quote table)]) := by
      change (_, _ ++ []) = _
      rw [Place.ended, String.ofList_toList]
      rfl
    rw [splitFrom, dot, splitFrom_quote rfl]
    rfl
  have run : splitFrom .gap (qualified table column).toList =
      (.closed true (Identifier.quote column).toList,
        [.sql (Identifier.quote table), .sql "."]) := by
    have point : ".".toList = ['.'] := rfl
    rw [qualified, String.append_assoc, String.toList_append, splitFrom_append, splitFrom_quote rfl,
      String.toList_append, point, List.singleton_append, dotted]
    rfl
  rw [split?_of_run run rfl, Place.ended, String.ofList_toList]
  rfl

theorem wordToken_of_head {c : Char} (cs : List Char)
    (other : c.toUpper ≠ 'A' ∧ c.toUpper ≠ 'O' ∧ c.toUpper ≠ 'N') :
    wordToken (c :: cs) = .sql (String.ofList (c :: cs)) := by
  simp [wordToken, isKeyword, other]

theorem split?_placeholder (fl : Flavor) (position : Nat) :
    split? (fl.placeholder position).toList = some [.sql (fl.placeholder position)] := by
  have digits : ∀ c ∈ Nat.toDigits 10 position, isWordChar c = true := by
    intro c member
    have digit : c.isDigit = true := Nat.isDigit_of_mem_toDigits (by decide) (by decide) member
    simp [isWordChar, Char.isAlphanum, digit]
  have marked {c : Char} (first : Place.gap.step c = (.word [c], []))
      (other : c.toUpper ≠ 'A' ∧ c.toUpper ≠ 'O' ∧ c.toUpper ≠ 'N') :
      split? (c :: Nat.toDigits 10 position) =
        some [.sql (String.ofList (c :: Nat.toDigits 10 position))] := by
    have run : splitFrom .gap (c :: Nat.toDigits 10 position) =
        (.word (c :: Nat.toDigits 10 position), []) := by
      rw [splitFrom, first, splitFrom_word digits]
      rfl
    rw [split?_of_run run rfl, Place.ended, wordToken_of_head _ other]
    rfl
  have text (mark : String) (c : Char) (single : mark = String.ofList [c]) :
      mark ++ Numeral.ofNat position = String.ofList (c :: Nat.toDigits 10 position) := by
    rw [single, Numeral.ofNat, ← String.ofList_append, List.singleton_append]
  cases fl with
  | postgresql =>
    rw [Flavor.placeholder, text "$" '$' rfl, String.toList_ofList]
    exact marked rfl (by decide)
  | sqlite =>
    rw [Flavor.placeholder, text "?" '?' rfl, String.toList_ofList]
    exact marked rfl (by decide)

end Split

section Settle

/-- A word that no later token depends on. -/
def Calm (t : Token) : Prop :=
  t.isWord = true ∧ isNamed "CASE" t = false ∧ isNamed "BETWEEN" t = false

instance (t : Token) : Decidable (Calm t) := inferInstanceAs (Decidable (_ ∧ _))

theorem calm_of_head {s : String} {c : Char} {cs : List Char} (text : s.toList = c :: cs)
    (other : c.toUpper ≠ 'C' ∧ c.toUpper ≠ 'B') : Calm (.sql s) := by
  simp [Calm, Token.isWord, isNamed, isKeyword, text, other]

theorem calm_quote (name : String) : Calm (.sql (Identifier.quote name)) :=
  calm_of_head (by rw [Identifier.quote, String.toList_ofList]; rfl) (by decide)

theorem calm_placeholder (fl : Flavor) (position : Nat) :
    Calm (.sql (fl.placeholder position)) := by
  cases fl with
  | postgresql =>
    exact calm_of_head (by rw [Flavor.placeholder, String.toList_append]; rfl) (by decide)
  | sqlite =>
    exact calm_of_head (by rw [Flavor.placeholder, String.toList_append]; rfl) (by decide)

theorem Spot.step_calm {t : Token} (calm : Calm t) :
    Spot.step .start t = (.inside false, t) ∧
      ∀ range, Spot.step (.inside range) t = (.inside range, t) := by
  obtain ⟨word, noCase, noRange⟩ := calm
  cases t with
  | lparen | rparen | and | or | not => cases word
  | sql _ | column _ _ | label _ | param _ _ => simp [Spot.step, afterWord, noCase, noRange]

variable {f g : Fragment}

theorem settle_calm (calm : ∀ t ∈ f, Calm t) (range : Bool) :
    settle (.inside range) f = (.inside range, f) := by
  induction f with
  | nil => rfl
  | cons t f inductionHypothesis =>
    obtain ⟨first, calm⟩ := List.forall_mem_cons.mp calm
    rw [settle, (Spot.step_calm first).2, inductionHypothesis calm]

theorem settle_start (calm : ∀ t ∈ f, Calm t) (full : f ≠ []) :
    settle .start f = (.inside false, f) := by
  obtain ⟨t, f, rfl⟩ := List.exists_cons_of_ne_nil full
  obtain ⟨first, calm⟩ := List.forall_mem_cons.mp calm
  rw [settle, (Spot.step_calm first).1, settle_calm calm]

/-- How many parentheses are open after a token. -/
def depthAfter : Nat → Token → Option Nat
  | depth, .lparen => some (depth + 1)
  | 0, .rparen => none
  | depth + 1, .rparen => some depth
  | depth, _ => some depth

theorem Spot.step_nested (range : Bool) {depth depth' : Nat} {t : Token}
    (within : depthAfter depth t = some depth') :
    Spot.step (.nested range false depth) t = (.nested range false depth', spelled t) := by
  cases t with
  | rparen =>
    cases depth with
    | zero => cases within
    | succ depth =>
      cases within
      rfl
  | lparen | and | or | not | sql _ | column _ _ | label _ | param _ _ =>
    cases depth <;> cases within <;> rfl

/-- Between the parentheses of an operand all tokens are words of it. -/
theorem settle_nested (range : Bool) {depth depth' : Nat}
    (within : f.foldlM depthAfter depth = some depth') :
    settle (.nested range false depth) f = (.nested range false depth', f.map spelled) := by
  induction f generalizing depth with
  | nil =>
    cases within
    rfl
  | cons t f inductionHypothesis =>
    rw [List.foldlM_cons] at within
    obtain ⟨here, first, within⟩ := Option.bind_eq_some_iff.mp within
    rw [settle, Spot.step_nested range first, inductionHypothesis within]
    rfl

end Settle

end Scanning

end TreeQuery.Sql
