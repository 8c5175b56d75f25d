import Automata.Automaton.Basic

/-! # Drawings

A drawing is a directed graph in the Graphviz language: a double circle for each final state, an
arrow into the initial state and a labelled arrow for each transition. Labels are quoted, so a
quote and a backslash are escaped; the empty move is labelled with the letter epsilon.
-/

namespace Automata

open Text (decimal)

def epsilonLetter : Char := 'ε'

/-- The label of a symbol, as written between quotes. -/
def Symbol.label : Symbol → Text
  | .char c => if c = '\"' ∨ c = '\\' then ['\\', c] else [c]
  | .epsilon => [epsilonLetter]

namespace Automaton

variable {k : Kind}

def drawingHeader : Text :=
  ("digraph \x7b\n" ++
    "    rankdir = LR;\n" ++
    "    ranksep = .75;\n" ++
    "    node [shape=circle style=filled]\n" ++
    "    start [shape=none, label=\"start\", style=\"\"]\n").toList

def drawnFinal (s : State) : Text :=
  "    ".toList ++ decimal s ++ " [shape=doublecircle]\n".toList

/-- The arrow into the initial state. -/
def drawnInitial (s : State) : Text :=
  "    start -> ".toList ++ decimal s ++ ['\n']

def drawnTransition (t : Transition) : Text :=
  "    ".toList ++ decimal t.source ++ " -> ".toList ++ decimal t.target ++
    " [label=\"".toList ++ t.symbol.label ++ "\"]\n".toList

/-- What stands between the header and the closing brace. -/
def drawingBody (a : Automaton k) : Text :=
  a.finals.toList.flatMap drawnFinal ++ a.initial.toList.flatMap drawnInitial ++
    a.transitions.flatMap drawnTransition

def drawing (a : Automaton k) : Text :=
  drawingHeader ++ a.drawingBody ++ ['\x7d']

end Automaton

end Automata
