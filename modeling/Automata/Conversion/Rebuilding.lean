import Automata.Conversion.EpsilonRemoval

/-! # Rebuilding without empty moves

An automaton is rebuilt without its empty moves state by state. The closures of single states are
needed again and again, so they are computed once, for all states, and looked up. A state is marked
final if its closure holds a final state. Then each character of the alphabet adds its targets to
the row of the state: the closures of all that the character leads to from the closure of the state.
-/

namespace Automata.Nfa

/-- The closure of each state, in the place that its number names. -/
def closures (n : Nfa) : List StateSet := (List.range n.stateCount).map fun s => n.closure [s]

/-- All that stands in the places of the given states, unless one of them has no place. -/
def lookUp (table : List StateSet) (states : List State) : Option StateSet := do
  let found ← states.mapM (table[·]?)
  return .ofList (found.flatMap OrderedSet.toList)

/-- Adds targets to those of `s` on `x`. When there are none to be added, no row and no entry is
opened for them. -/
def extend (n : Nfa) (s : State) (x : Symbol) (added : StateSet) : Nfa :=
  if added.isEmpty then n
  else n.setTarget s x (added.union ((n.target? s x).getD (∅ : StateSet)))

/-- Adds the targets of `s`, whose closure is `active`, on a character. There is no result when a
closure is needed that is not in the table. -/
def rebuildMove (n : Nfa) (s : State) (active : StateSet) (built : Nfa) (c : Char) : Option Nfa := do
  let added ← lookUp n.closures (n.move active c).toList
  return built.extend s (.char c) added

def rebuildMark (n : Nfa) (s : State) (active : StateSet) (built : Nfa) : Nfa :=
  if n.anyFinal active then { built with finals := built.finals.insert s } else built

def rebuildState (n : Nfa) (built : Nfa) (s : State) : Option Nfa :=
  let active := n.closure [s]
  n.alphabet.toList.foldlM (n.rebuildMove s active) (n.rebuildMark s active built)

def rebuilt (n : Nfa) : Option Nfa :=
  (List.range n.stateCount).foldlM n.rebuildState
    { Automaton.withStates .nfa n.stateCount with initial := n.initial }

end Automata.Nfa
