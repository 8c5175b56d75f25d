import Automata.Pattern.ByteAutomaton
import Automata.Pattern.Partition

/-! # Graphs of states

A graph lists the states that a search can be in. Each state is marked with what it says about
matches and has one move for each class of characters. Merging states that behave alike leaves the
least graph; a graph becomes a byte automaton when it begins in the same state whatever stands
before the text.
-/

namespace Automata.Pattern

/-- What a state says about matches: whether one has just ended, and whether one ends if the text
does. -/
structure Mark where
  matched : Bool
  atEnd : Bool
deriving DecidableEq

/-- States with their marks and moves, and the states that a search can begin in. -/
structure Graph where
  marks : Array Mark
  moves : Array (List Nat)
  starts : List Nat

namespace Graph

def mark (g : Graph) (i : Nat) : Mark := g.marks.getD i ⟨false, false⟩

def row (g : Graph) (i : Nat) : List Nat := g.moves.getD i []

/-- The graph with one state for all states that behave alike. -/
def merged (g : Graph) : Graph :=
  let blocks := Partition.ofMoves g.moves g.mark
  let names := Partition.blockOf g.moves.size blocks
  { marks := (blocks.map fun block => g.mark (block.headD 0)).toArray
    moves := (blocks.map fun block => (g.row (block.headD 0)).map (names.getD · 0)).toArray
    starts := g.starts.map (names.getD · 0) }

/-- Whether a state of a merged graph cannot be left and sees no match end. No other state sees no
match at all. -/
def isHalted (g : Graph) (i : Nat) : Bool :=
  g.mark i = ⟨false, false⟩ ∧ (g.row i).all (· = i)

/-- The state that a search begins in, if there is only one. -/
def start? (g : Graph) : Option Nat :=
  match g.starts with
  | [] => none
  | s :: rest => if rest.all (· = s) then some s else none

/-- The byte automaton that begins in a state. `classOf` gives the class of a byte that is a
character; other bytes lead to one more state, which is halted. -/
def byteAutomaton (g : Graph) (classOf : Array Nat) (start : Nat) : ByteAutomaton :=
  let sink : Fin (g.moves.size + 1) := Fin.last g.moves.size
  let state := fun i => if h : i < g.moves.size + 1 then ⟨i, h⟩ else sink
  { size := g.moves.size + 1
    start := state start
    next := fun q b =>
      match classOf[b.toNat]? with
      | some c => state ((g.row q.val).getD c g.moves.size)
      | none => sink
    halted := fun q => g.isHalted q.val
    matchesAtEnd := fun q => (g.mark q.val).atEnd }

end Graph

end Automata.Pattern
