import Automata.Run.Closure

/-! # Acceptance

A nondeterministic automaton keeps the set of states it can be in, closed under empty moves. A
deterministic one keeps its state, and stops where a move is missing. Both accept a word when the
run ends in a final state.
-/

namespace Automata

namespace Nfa

/-- The states that the states of `active` move to on `c`. -/
def move (n : Nfa) (active : StateSet) (c : Char) : StateSet :=
  active.bind (n.targets · (.char c))

/-- Whether some of the states is final. -/
def anyFinal (n : Nfa) (active : StateSet) : Bool := active.any n.isFinal

/-- Whether a word leads from the closed set `active` to a final state. A set that has become empty
stays empty, so the rest of the word is not read then. -/
def acceptsFrom (n : Nfa) (active : StateSet) : Text → Bool
  | [] => n.anyFinal active
  | c :: word =>
      let next := n.closure (n.move active c).toList
      if next.isEmpty then false else n.acceptsFrom next word

end Nfa

namespace Dfa

/-- The states passed after `s` while reading a word, unless a move is missing. -/
def trace (d : Dfa) (s : State) : Text → Option (List State)
  | [] => some []
  | c :: word => do
      let next ← d.next? s c
      let rest ← d.trace next word
      return next :: rest

/-- Whether a word leads from `s` to a final state. -/
def acceptsFrom (d : Dfa) (s : State) : Text → Bool
  | [] => d.isFinal s
  | c :: word =>
      match d.next? s c with
      | some next => d.acceptsFrom next word
      | none => false

/-- The states visited while reading a word, the initial state first, unless a move is missing. -/
def stateSequence (d : Dfa) (word : Text) : Except Error (Option (List State)) := do
  let start ← d.initialState
  return (d.trace start word).map (start :: ·)

end Dfa

namespace Automaton

/-- Whether the automaton accepts a word. -/
def accepts : {k : Kind} → Automaton k → Text → Except Error Bool
  | .nfa, n, word => do
      let start ← n.initialState
      return Nfa.acceptsFrom n (Nfa.closure n [start]) word
  | .dfa, d, word => do
      let start ← d.initialState
      return Dfa.acceptsFrom d start word

/-- Which of the words the automaton accepts, in order. -/
def acceptsAll {k : Kind} (a : Automaton k) (words : List Text) : Except Error (List Bool) :=
  words.mapM a.accepts

end Automaton

end Automata
