import Automata.Automaton.Basic
import Automata.Machine.Exploration

/-! # Closure under empty moves

The closure of a list of states holds every state that empty moves lead to from one of them, the
states themselves included.
-/

namespace Automata.Nfa

/-- The targets of all empty moves, one for each move. -/
def epsilonTargets (n : Nfa) : List State :=
  n.rows.entries.flatMap fun (_, row) =>
    match row.get? .epsilon with
    | some states => states.toList
    | none => []

/-- The states that empty moves lead to from `seeds`. Only seeds and targets of empty moves can be
found, so there are no more steps than seeds and empty moves. -/
def closure (n : Nfa) (seeds : List State) : StateSet :=
  .ofList <| Exploration.discover (n.targets · .epsilon)
    (seeds.length + n.epsilonTargets.length) seeds

/-- The closure of states of the automaton. The first seed that is not one of them is refused. -/
def epsilonClosure (n : Nfa) (seeds : List State) : Except Error StateSet := do
  seeds.forM n.checkState
  return n.closure seeds

end Automata.Nfa
