import TreeQuery.Clause.Basic

/-!
Clause lists in the making. A connective or a negation waits for the next condition and is spent
on it, even if that condition is dropped for being empty.
-/

namespace TreeQuery

structure ClauseDraft where
  clauses : List Clause
  connective : Connective
  negated : Bool

namespace ClauseDraft

def empty : ClauseDraft := ⟨[], .and, false⟩

def push (d : ClauseDraft) (c : Condition) : ClauseDraft :=
  ⟨if c.isEmpty then d.clauses else d.clauses ++ [.mk d.connective d.negated c], .and, false⟩

def or (d : ClauseDraft) : ClauseDraft := { d with connective := .or }

/-- Twice is the same as not at all. -/
def not (d : ClauseDraft) : ClauseDraft := { d with negated := !d.negated }

end ClauseDraft

end TreeQuery
