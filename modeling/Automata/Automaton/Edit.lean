import Automata.Automaton.Basic

/-! # Edits

An edit is one call that changes an automaton. A list of edits can be applied strictly, so that the
first failing edit is the answer, or freely, so that a failing edit changes nothing and the next
one is tried.
-/

namespace Automata

/-- One change to an automaton. Empty moves can be added to a nondeterministic automaton only. -/
inductive Edit : Kind → Type where
  | addState {k : Kind} : Edit k
  | requireStates {k : Kind} (n : Nat) : Edit k
  | markInitial {k : Kind} (s : State) : Edit k
  | markFinal {k : Kind} (s : State) : Edit k
  | addTransition {k : Kind} (source : State) (c : Char) (target : State) : Edit k
  | addEpsilon (source target : State) : Edit .nfa

namespace Edit

variable {k : Kind}

/-- Whether the edit is a call for more states. -/
def addsStates : {k : Kind} → Edit k → Bool
  | _, addState => true
  | _, requireStates _ => true
  | _, markInitial _ => false
  | _, markFinal _ => false
  | _, addTransition .. => false
  | _, addEpsilon .. => false

/-- The states that the edit names, in the order in which they are checked. -/
def named : {k : Kind} → Edit k → List State
  | _, addState => []
  | _, requireStates _ => []
  | _, markInitial s => [s]
  | _, markFinal s => [s]
  | _, addTransition source _ target => [source, target]
  | _, addEpsilon source target => [source, target]

def apply : {k : Kind} → Automaton k → Edit k → Except Error (Automaton k)
  | _, a, addState => .ok a.addState
  | _, a, requireStates n => .ok (a.requireStates n)
  | _, a, markInitial s => a.markInitial s
  | _, a, markFinal s => a.markFinal s
  | _, a, addTransition source c target => a.addTransition source c target
  | _, a, addEpsilon source target => Nfa.addEpsilon a source target

/-- The automaton after the edit, or unchanged when the edit fails. -/
def attempt (a : Automaton k) (e : Edit k) : Automaton k :=
  match apply a e with
  | .ok b => b
  | .error _ => a

/-- Applies edits in order up to the first that fails. -/
def applyAll (a : Automaton k) : List (Edit k) → Except Error (Automaton k)
  | [] => .ok a
  | e :: rest =>
      match apply a e with
      | .ok b => applyAll b rest
      | .error err => .error err

/-- Applies edits in order and passes over those that fail. -/
def attemptAll (a : Automaton k) (edits : List (Edit k)) : Automaton k :=
  edits.foldl attempt a

end Edit

end Automata
