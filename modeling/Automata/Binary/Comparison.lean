import Automata.Binary.Layout

/-! # Layouts that are compared

The sets and tables of an automaton in memory come in no particular order, and a layout is the order
in which they happen to be listed. Automata are compared without looking at the order. Two sets are
equal if they have as many elements and each element of the one is in the other. Two tables are
equal if they have as many entries and each key of the one is looked up in the other and found there
with an equal value.
-/

namespace Automata.Binary

def sameElements {α : Type} [DecidableEq α] (l m : List α) : Bool :=
  l.length == m.length && l.all (· ∈ m)

/-- Whether two tables are equal, when `same` compares their values. -/
def sameEntries {κ β : Type} [DecidableEq κ] (same : β → β → Bool) (l m : List (κ × β)) : Bool :=
  l.length == m.length && l.all fun p => (m.lookup p.1).any (same p.2)

def Spelled.same : {k : Kind} → Spelled k → Spelled k → Bool
  | .nfa, s, t => sameElements s t
  | .dfa, s, t => decide (s = t)

def Layout.same {k : Kind} (l m : Layout k) : Bool :=
  l.stateCount == m.stateCount && l.initial == m.initial && sameElements l.finals m.finals &&
    sameEntries (sameEntries Spelled.same) l.rows m.rows

end Automata.Binary
