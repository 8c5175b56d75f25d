import Automata.Run.Acceptance
import Automata.Journal

/-! # Removing empty moves

Without its empty moves an automaton keeps its states and its initial state. A state moves on a
character to everything that the character, with empty moves before and after it, leads to, and is
final when empty moves lead from it to a final state.
-/

namespace Automata.Nfa

/-- The states that are final or have a row. No other state can be final or move after the empty
moves are removed. -/
def support (n : Nfa) : StateSet := n.finals.union n.rows.keys

def characterSymbols (n : Nfa) : OrderedSet Symbol :=
  .ofList (n.alphabet.toList.map .char)

/-- The states that the closed set `active` leads to on `c` and with empty moves after it. -/
def closedMove (n : Nfa) (active : StateSet) (c : Char) : StateSet :=
  n.closure (n.move active c).toList

/-- The row of a state from whose closure `active` it moves. A character that leads nowhere has no
entry. -/
def closedRow (n : Nfa) (symbols : OrderedSet Symbol) (active : StateSet) : Row .nfa :=
  .tabulate symbols fun x =>
    match x with
    | .char c =>
        let reached := n.closedMove active c
        if reached.isEmpty then none else some reached
    | .epsilon => none

def withoutEpsilon (n : Nfa) : Nfa :=
  let symbols := n.characterSymbols
  { stateCount := n.stateCount
    initial := n.initial
    finals := n.support.filter fun s => n.anyFinal (n.closure [s])
    rows := .tabulate n.support fun s =>
      let row := n.closedRow symbols (n.closure [s])
      if row.isEmpty then none else some row }

def removalEvents (n : Nfa) : List Event :=
  [.epsilonRemoved n.transitionCount n.withoutEpsilon.transitionCount]

end Automata.Nfa
