import Mathlib.Data.List.Infix
import TreeQuery.Proofs.Sql.PageOrder
import TreeQuery.Proofs.Sql.Words

/-!
The words of the restricted dialect. The text of a statement is made of words, quoted names, numbers
and placeholders, and of SQL that the author of the schema wrote.
-/

namespace TreeQuery

mutual

/-- The SQL that an author wrote into a condition. -/
def Condition.authorTexts : Condition → List String
  | .raw sql _ | .exists sql _ => [sql]
  | .group clauses => clausesAuthorTexts clauses
  | _ => []

def clausesAuthorTexts : List Clause → List String
  | [] => []
  | .mk _ _ c :: r => c.authorTexts ++ clausesAuthorTexts r

end

def TableName.authorTexts : TableName → List String
  | .ident _ => []
  | .expr sql => [sql]

namespace Plan

def Junction.authorTexts (j : Junction) : List String :=
  j.table.authorTexts ++ clausesAuthorTexts (j.fromParent.getD []) ++
    clausesAuthorTexts (j.toChild.getD []) ++ clausesAuthorTexts j.filter ++
    clausesAuthorTexts ((j.batch.bind JunctionBatch.join).getD [])

def Table.authorTexts (t : Table) : List String :=
  t.name.authorTexts ++ clausesAuthorTexts (t.join.getD []) ++
    (t.junction.map Junction.authorTexts).getD [] ++ clausesAuthorTexts t.filter

mutual

/-- All SQL in a plan that its author wrote. -/
def Node.authorTexts : Node → List String
  | .table t children => t.authorTexts ++ nodesAuthorTexts children
  | .column c => match c.source with
    | .name _ => []
    | .expression sql => [sql]
  | .composite _ | .noop _ _ => []

def nodesAuthorTexts : List Node → List String
  | [] => []
  | n :: r => n.authorTexts ++ nodesAuthorTexts r

end

end Plan

namespace Sql

open Plan (Paging Table)

inductive Lexeme where
  | word (text : String)
  | name (name : String)
  | placeholder (position : Nat)
  | number (n : Nat)
  | authored (text : String)

def Lexeme.text : Lexeme → String
  | .word s | .authored s => s
  | .name n => Identifier.quote n
  | .placeholder n => "?" ++ Numeral.ofNat n
  | .number n => Numeral.ofNat n

def restrictedWords : List String :=
  ["SELECT\n  ", ",\n  ", " AS ", "\n", "FROM ", "LEFT JOIN ", " ", " ON ", "\nWHERE ",
    "\nORDER BY ", ", ", "ASC", "DESC", ".", "FROM (\n", "  SELECT ", ".*", "\n  FROM ",
    "\n  WHERE ", "\n  ORDER BY ", "\n  ", "LIMIT ", "LIMIT -1", "\n) ", " AND ", " OR ", "NOT ",
    "(", ")", "TRUE", "1 = 0", " IS NULL", " IS NOT NULL", " = ", " <> ", " > ", " >= ", " < ",
    " <= ", " LIKE ", " IN (", " > (", " < (", " = (", "EXISTS (", "NULLIF(", " || ", ", '')"]

/-- Words of lateral joins, window functions, empty limits, concatenations, and placeholders of the
full dialect. -/
def missingWords : List String := ["LATERAL", "OVER", "ALL", "CONCAT", "$"]

theorem restrictedWords_lack {w m : String} (word : w ∈ restrictedWords)
    (missing : m ∈ missingWords) : ¬m.toList <:+: w.toList := by
  have all : ∀ w ∈ restrictedWords, ∀ m ∈ missingWords, ¬m.toList <:+: w.toList := by decide
  exact all w word m missing

/-- A piece of the text is a word of the restricted dialect, or else no word: what is authored comes
from the author's texts. -/
def Lexeme.Restricted (texts : List String) : Lexeme → Prop
  | .word s => s ∈ restrictedWords
  | .authored s => ∃ text ∈ texts, s.toList <:+: text.toList
  | .name _ | .placeholder _ | .number _ => True

/-- The text is made of such pieces. -/
def Spelled (texts : List String) (s : String) : Prop :=
  ∃ ls : List Lexeme, s = String.join (ls.map Lexeme.text) ∧ ∀ l ∈ ls, l.Restricted texts

namespace Spelled

variable {texts : List String}

theorem empty : Spelled texts "" := ⟨[], rfl, by simp⟩

theorem append {s s' : String} (h : Spelled texts s) (h' : Spelled texts s') :
    Spelled texts (s ++ s') := by
  obtain ⟨ls, rfl, first⟩ := h
  obtain ⟨ls', rfl, later⟩ := h'
  refine ⟨ls ++ ls', ?_, List.forall_mem_append.mpr ⟨first, later⟩⟩
  rw [List.map_append, String.join_append]

theorem lexeme {l : Lexeme} (h : l.Restricted texts) : Spelled texts l.text :=
  ⟨[l], by simp, List.forall_mem_singleton.mpr h⟩

theorem word {s : String} (h : s ∈ restrictedWords) : Spelled texts s := lexeme (l := .word s) h

theorem name (n : String) : Spelled texts (Identifier.quote n) := lexeme (l := .name n) trivial

theorem number (n : Nat) : Spelled texts (Numeral.ofNat n) := lexeme (l := .number n) trivial

theorem authored {s text : String} (member : text ∈ texts) (within : s.toList <:+: text.toList) :
    Spelled texts s := lexeme (l := .authored s) ⟨text, member, within⟩

theorem join {ss : List String} (h : ∀ s ∈ ss, Spelled texts s) :
    Spelled texts (String.join ss) := by
  induction ss with
  | nil => exact empty
  | cons s ss inductionHypothesis =>
    obtain ⟨first, later⟩ := List.forall_mem_cons.mp h
    rw [String.join_cons]
    exact first.append (inductionHypothesis later)

theorem intercalate {separator : String} (word : separator ∈ restrictedWords) {ss : List String}
    (h : ∀ s ∈ ss, Spelled texts s) : Spelled texts (String.intercalate separator ss) := by
  induction ss with
  | nil => exact empty
  | cons s ss inductionHypothesis =>
    obtain ⟨first, later⟩ := List.forall_mem_cons.mp h
    cases ss with
    | nil => simpa using first
    | cons s' ss =>
      rw [String.intercalate_cons_cons]
      exact (first.append (.word word)).append (inductionHypothesis later)

end Spelled

/-- Text that stands for itself is a word, or a piece of what was authored. -/
inductive Token.Plain (texts : List String) : Token → Prop
  | word {s : String} (known : s ∈ restrictedWords) : Token.Plain texts (.sql s)
  | authored {s text : String} (member : text ∈ texts) (within : s.toList <:+: text.toList) :
    Token.Plain texts (.sql s)
  | column (table column : String) : Token.Plain texts (.column table column)
  | label (name : String) : Token.Plain texts (.label name)
  | param (position : Nat) (value : Value) : Token.Plain texts (.param position value)
  | lparen : Token.Plain texts .lparen
  | rparen : Token.Plain texts .rparen
  | and : Token.Plain texts .and
  | or : Token.Plain texts .or
  | not : Token.Plain texts .not

def Fragment.Plain (texts : List String) (f : Fragment) : Prop := ∀ t ∈ f, t.Plain texts

namespace Fragment.Plain

variable {texts : List String} {t : Token} {f g : Fragment}

@[simp] theorem nil : Fragment.Plain texts [] := by simp [Fragment.Plain]

@[simp] theorem cons_iff :
    Fragment.Plain texts (t :: f) ↔ t.Plain texts ∧ Fragment.Plain texts f := List.forall_mem_cons

@[simp] theorem append_iff :
    Fragment.Plain texts (f ++ g) ↔ Fragment.Plain texts f ∧ Fragment.Plain texts g :=
  List.forall_mem_append

theorem cons (first : t.Plain texts) (later : Fragment.Plain texts f) :
    Fragment.Plain texts (t :: f) := cons_iff.mpr ⟨first, later⟩

theorem append (first : Fragment.Plain texts f) (later : Fragment.Plain texts g) :
    Fragment.Plain texts (f ++ g) := append_iff.mpr ⟨first, later⟩

theorem between (plain : t.Plain texts) {fs : List Fragment}
    (h : ∀ f ∈ fs, Fragment.Plain texts f) : Fragment.Plain texts (between t fs) := by
  induction fs with
  | nil => exact nil
  | cons f fs inductionHypothesis =>
    obtain ⟨first, later⟩ := List.forall_mem_cons.mp h
    have rest := inductionHypothesis later
    cases fs with
    | nil => exact first
    | cons g fs => exact first.append (.cons plain rest)

theorem spelled (h : Fragment.Plain texts f) : Spelled texts (Fragment.text .sqlite f) := by
  apply Spelled.join
  intro s member
  obtain ⟨t, among, rfl⟩ := List.mem_map.mp member
  cases h t among with
  | word known => exact .word known
  | authored known within => exact .authored known within
  | column table column =>
    exact ((Spelled.name table).append (.word (by decide))).append (.name column)
  | label n => exact .name n
  | param n _ => exact .lexeme (l := .placeholder n) trivial
  | lparen | rparen | and | or | not => exact .word (by decide)

end Fragment.Plain

section Clauses

variable {texts : List String} (a : Labels)

theorem bindValue_plain (v : Value) : Yields (Token.Plain texts) (bindValue v) where
  returned ran := by
    cases ran
    exact .param _ _

theorem bindValues_plain (values : List Value) :
    Yields (fun tokens => ∀ t ∈ tokens, t.Plain texts) (bindValues values) := by
  induction values with
  | nil => exact .pure (by simp)
  | cons v values inductionHypothesis =>
    apply (bindValue_plain v).bind
    intro token first
    apply inductionHypothesis.bind
    intro tokens later
    exact .pure (List.forall_mem_cons.mpr ⟨first, later⟩)

theorem columnToken_plain (c : ColumnRef) : Yields (Token.Plain texts) (columnToken a c) :=
  .after (fun _ => .pure (.column _ _))

theorem operator_plain (op : CompareOp) : (Token.sql (" " ++ op.sql ++ " ")).Plain texts := by
  apply Token.Plain.word
  cases op <;> decide

section Column

variable {column : Token} (plain : column.Plain texts)
include plain

theorem comparison_plain (op : CompareOp) (v : Value) :
    Yields (Fragment.Plain texts) (comparison column op v) := by
  unfold comparison
  split
  · exact .pure (.cons plain (.cons (.word (by decide)) .nil))
  · exact .pure (.cons plain (.cons (.word (by decide)) .nil))
  · apply (bindValue_plain v).bind
    intro token bound
    exact .pure (.cons plain (.cons (operator_plain op) (.cons bound .nil)))

theorem membership_plain (values : List Value) :
    Yields (Fragment.Plain texts) (membership column values) := by
  apply (bindValues_plain values).bind
  intro tokens bound
  have listed : Fragment.Plain texts (commaSeparated (tokens.map (fun t => [t]))) := by
    apply Fragment.Plain.between (.word (by decide))
    intro f member
    obtain ⟨t, within, rfl⟩ := List.mem_map.mp member
    exact .cons (bound t within) .nil
  have closing : Fragment.Plain texts [.sql ")"] := .cons (.word (by decide)) .nil
  exact .pure (.cons plain (.cons (.word (by decide)) (listed.append closing)))

end Column

/-- The pieces of a raw text that stand for themselves are its characters. -/
theorem char_mem_of_piecesFrom {isParam : String → Bool} {skip : Nat} {cs : List Char} {c : Char}
    (member : .char c ∈ piecesFrom isParam skip cs) : c ∈ cs := by
  fun_induction piecesFrom isParam skip cs
  case case1 => cases member
  case case2 inductionHypothesis => exact List.mem_cons_of_mem _ (inductionHypothesis member)
  case case3 inductionHypothesis | case5 inductionHypothesis =>
    rcases List.mem_cons.mp member with same | later
    · cases same
    · exact List.mem_cons_of_mem _ (inductionHypothesis later)
  case case4 inductionHypothesis | case6 inductionHypothesis | case7 inductionHypothesis =>
    rcases List.mem_cons.mp member with same | later
    · cases same
      exact List.mem_cons_self
    · exact List.mem_cons_of_mem _ (inductionHypothesis later)

theorem raw_plain {sql : String} (params : Fields Value) (authored : sql ∈ texts) :
    Yields (Fragment.Plain texts) (raw a sql params) := by
  have chars : ∀ c, .char c ∈ pieces (Fields.contains params) sql → c ∈ sql.toList :=
    fun c member => char_mem_of_piecesFrom member
  unfold raw
  generalize pieces (Fields.contains params) sql = ps at chars
  induction ps with
  | nil => exact .pure .nil
  | cons p ps inductionHypothesis =>
    have here : Yields (Token.Plain texts) (pieceToken a params p) := by
      cases p with
      | char c =>
        refine .pure (.authored authored ?_)
        rw [Char.toString, String.toList_singleton]
        exact (List.singleton_infix_iff c _).mpr (chars c List.mem_cons_self)
      | role r => exact .after (fun _ => .pure (.label _))
      | param name => exact bindValue_plain _
    apply here.bind
    intro token first
    apply (inductionHypothesis (fun c member => chars c (List.mem_cons_of_mem _ member))).bind
    intro tokens later
    exact .pure (.cons first later)

mutual

theorem condition_plain : (c : Condition) → c.authorTexts ⊆ texts →
    Yields (Fragment.Plain texts) (condition a c)
  | .compare c op v, _ => by
    rw [condition]
    apply (columnToken_plain a c).bind
    intro column plain
    exact comparison_plain plain op v
  | .compareColumns l op r, _ => by
    rw [condition]
    apply (columnToken_plain a l).bind
    intro left first
    apply (columnToken_plain a r).bind
    intro right second
    exact .pure (.cons first (.cons (operator_plain op) (.cons second .nil)))
  | .within c values, _ => by
    rw [condition]
    apply Yields.ite
    · intro _
      exact .pure (.cons (.word (by decide)) .nil)
    · intro _
      apply (columnToken_plain a c).bind
      intro column plain
      exact membership_plain plain values
  | .raw sql params, authored => raw_plain a params (authored (List.mem_singleton.mpr rfl))
  | .group clauses, authored => by
    rw [condition]
    apply Yields.ite
    · intro _
      exact .pure (.cons .lparen (.cons (.word (by decide)) (.cons .rparen .nil)))
    · intro _
      apply (clauseTokens_plain true clauses authored).bind
      intro f inner
      exact .pure (.cons .lparen (inner.append (.cons .rparen .nil)))
  | .exists sql params, authored => by
    rw [condition]
    apply (raw_plain a params (authored (List.mem_singleton.mpr rfl))).bind
    intro f inner
    exact .pure (.cons (.word (by decide)) (inner.append (.cons (.word (by decide)) .nil)))

theorem clauseTokens_plain (first : Bool) : (clauses : List Clause) →
    clausesAuthorTexts clauses ⊆ texts →
    Yields (Fragment.Plain texts) (clauseTokens a first clauses)
  | [], _ => .pure .nil
  | .mk connective negated c :: r, authored => by
    obtain ⟨authoredHere, authoredLater⟩ := List.append_subset.mp authored
    rw [clauseTokens]
    apply (condition_plain c authoredHere).bind
    intro body here
    apply (clauseTokens_plain false r authoredLater).bind
    intro rest later
    have lead : Fragment.Plain texts (if first then [] else [Connective.token connective]) := by
      cases first with
      | true => exact .nil
      | false => cases connective <;> exact .cons (by constructor) .nil
    have body : Fragment.Plain texts
        (if negated then .not :: .lparen :: body ++ [.rparen] else body) := by
      cases negated with
      | true => exact .cons .not (.cons .lparen (here.append (.cons .rparen .nil)))
      | false => exact here
    exact .pure ((lead.append body).append later)

end

theorem predicate_plain {clauses : List Clause} (authored : clausesAuthorTexts clauses ⊆ texts) :
    Yields (Fragment.Plain texts) (predicate a clauses) := by
  unfold predicate
  apply Yields.ite
  · intro _
    exact .pure (.cons (.word (by decide)) .nil)
  · intro _
    apply (clauseTokens_plain a true clauses authored).bind
    intro tokens inner
    apply Yields.pure
    split
    · exact .cons .lparen (inner.append (.cons .rparen .nil))
    · exact inner

theorem filter_plain {clauses : List Clause} (authored : clausesAuthorTexts clauses ⊆ texts) :
    Yields (fun fs => ∀ f ∈ fs, Fragment.Plain texts f) (filter a clauses) := by
  unfold filter
  apply Yields.ite
  · intro _
    exact .pure (by simp)
  · intro _
    apply (predicate_plain a authored).bind
    intro f plain
    exact .pure (List.forall_mem_singleton.mpr plain)

end Clauses

section Cursors

variable {texts : List String}

theorem pastCursor_plain {terms : List CursorTerm} (h : ∀ c ∈ terms, c.value.Plain texts) :
    Fragment.Plain texts (pastCursor terms) := by
  have compared (c : CursorTerm) (plain : c.value.Plain texts) {op : String}
      (known : " " ++ op ++ " (" ∈ restrictedWords) : Fragment.Plain texts (c.compared op) :=
    .cons (.column _ _) (.cons (.word known) (.cons plain (.cons (.word (by decide)) .nil)))
  have strict (c : CursorTerm) (plain : c.value.Plain texts) : Fragment.Plain texts c.strict := by
    apply compared c plain
    cases c.direction <;> decide
  induction terms with
  | nil => exact .cons (.word (by decide)) .nil
  | cons c terms inductionHypothesis =>
    obtain ⟨first, later⟩ := List.forall_mem_cons.mp h
    have rest := inductionHypothesis later
    cases terms with
    | nil => exact strict c first
    | cons d terms =>
      have equal : Fragment.Plain texts c.equal := compared c first (by decide)
      have inner := equal.append (.cons .and (rest.append (.cons .rparen (.cons .rparen .nil))))
      simpa [pastCursor, List.append_assoc] using
        Fragment.Plain.cons .lparen ((strict c first).append (.cons .or (.cons .lparen inner)))

theorem cursorTerms_plain (p : Plan.KeysetPage) (key : SortKey) (values : List Value) :
    Yields (fun terms => ∀ c ∈ terms, c.value.Plain texts) (cursorTerms p key values) := by
  induction key generalizing values with
  | nil => exact .pure (by simp)
  | cons c key inductionHypothesis =>
    cases values with
    | nil => exact .pure (by simp)
    | cons v values =>
      rw [cursorTerms]
      apply (bindValue_plain v).bind
      intro token plain
      apply (inductionHypothesis values).bind
      intro terms later
      exact .pure (List.forall_mem_cons.mpr ⟨plain, later⟩)

theorem cursorCondition_plain (p : Paging) :
    Yields (fun fs => ∀ f ∈ fs, Fragment.Plain texts f) (cursorCondition p) := by
  cases p with
  | offset p => exact .pure (by simp)
  | keyset p =>
    simp only [cursorCondition]
    cases p.cursor with
    | none => exact .pure (by simp)
    | some values =>
      apply (cursorTerms_plain p p.key values).bind
      intro terms plain
      exact .pure (List.forall_mem_singleton.mpr (pastCursor_plain plain))

end Cursors

end Sql

end TreeQuery
