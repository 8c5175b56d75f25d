import Automata.Conversion.EpsilonRemoval
import Automata.Machine.Walk

/-! # Determinization

The deterministic automaton of a nondeterministic one without empty moves has sets of its states
as nodes. The start is the set of the initial state, and a set moves to the set of all targets of
its members. A set that moves nowhere on a character has no transition there, so the empty set is
no node.
-/

namespace Automata.Nfa

/-- The machine whose nodes are the sets of states that the automaton can be in. -/
def subsetMachine (n : Nfa) (start : State) : Machine StateSet where
  start := .singleton start
  next active c :=
    let reached := n.move active c
    if reached.isEmpty then none else some reached
  accepting := n.anyFinal

def characterTargets (n : Nfa) : StateSet :=
  .ofList <| n.transitions.filterMap fun t =>
    if t.symbol = .epsilon then none else some t.target

/-- An upper bound on the number of sets of states that can be met: the start, and the nonempty
sets of targets. -/
def subsetBound (n : Nfa) : Nat := Nat.pow 2 n.characterTargets.size

/-- The walk through the sets of states. The set that has waited longest is moved on each character
of the alphabet, and the sets it moves to are numbered as they are met. -/
def subsetWalk (n : Nfa) (start : State) : Walk StateSet :=
  (n.subsetMachine start).walk n.alphabet n.subsetBound

/-- A deterministic automaton together with the set of states behind each of its states. -/
structure Determinized where
  dfa : Dfa
  subsets : List StateSet
deriving DecidableEq

/-- The automaton of the sets of states. Empty moves must be removed first, and an initial state
must be set. -/
def subsetConstruction (n : Nfa) : Except Error Determinized := do
  if n.hasEpsilon then throw .epsilonPresent
  let start ← n.initialState
  let machine := n.subsetMachine start
  let subsets := machine.nodes n.alphabet n.subsetBound
  return ⟨machine.number n.alphabet subsets, subsets⟩

/-- The deterministic automaton of one without empty moves. -/
def determinize (n : Nfa) : Except Error Dfa :=
  n.subsetConstruction.map Determinized.dfa

/-- The deterministic automaton of any automaton: empty moves are removed first. -/
def toDfa (n : Nfa) : Except Error Dfa := n.withoutEpsilon.determinize

/-! ### Reports -/

/-- The report on one determinization: every set found after the start, then the sizes. -/
def Determinized.events (d : Determinized) (n : Nfa) : List Event :=
  (d.subsets.zipIdx.drop 1).map (fun (subset, i) => .subsetDiscovered i subset) ++
    [.determinized n.stateCount d.dfa.stateCount]

def determinizationEvents (n : Nfa) : List Event :=
  match n.subsetConstruction with
  | .ok d => d.events n
  | .error _ => []

def toDfaEvents (n : Nfa) : List Event :=
  n.removalEvents ++ n.withoutEpsilon.determinizationEvents

end Automata.Nfa
