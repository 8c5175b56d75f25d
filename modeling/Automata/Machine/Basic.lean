import Automata.Automaton.Basic
import Automata.Machine.Exploration

/-! # Machines

A machine is a deterministic automaton given by functions on nodes of any type. Its nodes are
numbered in the order in which breadth-first exploration from the start finds them, characters
tried in ascending order, and the numbered nodes form a deterministic automaton.
-/

namespace Automata

/-- A deterministic automaton whose nodes are the elements of a type. -/
structure Machine (σ : Type) where
  start : σ
  next : σ → Char → Option σ
  accepting : σ → Bool

namespace Machine

variable {σ : Type} [DecidableEq σ]

/-- The nodes that a node moves to, in ascending order of the characters. -/
def successors (m : Machine σ) (alphabet : OrderedSet Char) (q : σ) : List σ :=
  alphabet.toList.filterMap (m.next q)

/-- The nodes that can be reached from the start, in the order of discovery. -/
def nodes (m : Machine σ) (alphabet : OrderedSet Char) (fuel : Nat) : List σ :=
  Exploration.discover (m.successors alphabet) fuel [m.start]

/-- The row of a node whose moves lead to the listed nodes, each named by its place. -/
def row (m : Machine σ) (alphabet : OrderedSet Char) (found : List σ) (q : σ) : Row .dfa :=
  .tabulate (.ofList (alphabet.toList.map Symbol.char)) fun x =>
    match x with
    | .char c => (m.next q c).map (found.idxOf ·)
    | .epsilon => none

/-- The automaton of the listed nodes, each named by its place in the list. The first one is the
initial state. -/
def number (m : Machine σ) (alphabet : OrderedSet Char) (found : List σ) : Dfa where
  stateCount := found.length
  initial := some 0
  finals := (OrderedSet.below found.length).filter fun i =>
    match found[i]? with
    | some q => m.accepting q
    | none => false
  rows := .tabulate (.below found.length) fun i =>
    match found[i]? with
    | some q =>
        let row := m.row alphabet found q
        if row.isEmpty then none else some row
    | none => none

def toDfa (m : Machine σ) (alphabet : OrderedSet Char) (fuel : Nat) : Dfa :=
  m.number alphabet (m.nodes alphabet fuel)

end Machine

end Automata
