import Automata.Automaton.Basic

/-! # Listings

A listing shows an automaton line by line: its kind and number of states, the initial state or a
dash, the final states, and one line for each transition.
-/

namespace Automata

open Text (decimal)

def Kind.name : Kind → Text
  | .nfa => ['N', 'F', 'A']
  | .dfa => ['D', 'F', 'A']

/-- A transition with its symbol on the arrow. -/
def Transition.listed (t : Transition) : Text :=
  decimal t.source ++ " --".toList ++ t.symbol.text ++ "--> ".toList ++ decimal t.target

namespace Automaton

variable {k : Kind}

def listingLines (a : Automaton k) : List Text :=
  [ k.name ++ " with ".toList ++ decimal a.stateCount ++ " states".toList,
    "initial: ".toList ++ (match a.initial with | some s => decimal s | none => ['-']),
    "final: ".toList ++ Text.numerals '[' ']' a.finals.toList ] ++
  a.transitions.map Transition.listed

def listing (a : Automaton k) : Text := Text.unlines a.listingLines

end Automaton

end Automata
