import Automata.Automaton.Edit
import Automata.Binary.Layout
import Automata.Conversion.Subsets
import Automata.Pattern.Engine
import Automata.TransitionList.Reader

/-! # Sessions

A session holds automata of both kinds, each in its place. A call makes an automaton, which takes
the next place, or edits one in its place. Nothing changes when a call fails, when it asks for an
automaton that is not there, or when its result would have more states than can be counted.

A call that compiles a pattern names the engine that compiles it, and nothing is assumed of engines:
what holds of all sessions holds of those with any one engine.
-/

namespace Automata

abbrev Held := Σ k, Automaton k

/-- One call. An automaton that it works on is named by its place. -/
inductive Call where
  | withStates (k : Kind) (n : Nat)
  | edit (k : Kind) (place : Nat) (e : Edit k)
  | read (k : Kind) (policy : TransitionList.Policy) (bytes : Bytes)
  | ofBinary (k : Kind) (bytes : Bytes)
  | ofEngine (compile : Text → Except PatternError Engine) (r : Text)
  | withoutEpsilon (place : Nat)
  | determinize (place : Nat)
  | toDfa (place : Nat)
  | toNfa (place : Nat)

namespace Session

variable {k : Kind}

def get? (held : List Held) (k : Kind) (place : Nat) : Option (Automaton k) :=
  match k, held[place]? with
  | .nfa, some ⟨.nfa, n⟩ => some n
  | .dfa, some ⟨.dfa, d⟩ => some d
  | _, _ => none

/-- A result that can be held: it is no error, and its states can be counted. -/
def keep? (r : Except Error (Automaton k)) : Option Held :=
  match r with
  | .ok a => if a.stateCount ≤ stateLimit then some ⟨k, a⟩ else none
  | .error _ => none

/-- The automaton that a call leads to. -/
def made (held : List Held) : Call → Option Held
  | .withStates k n => keep? (.ok (.withStates k n))
  | .edit k place e => do keep? (e.apply (← get? held k place))
  | .read k policy bytes => keep? (TransitionList.read k policy bytes)
  | .ofBinary k bytes => keep? (Automaton.ofBinary k bytes)
  | .ofEngine compile r => keep? (Dfa.ofEngine compile r)
  | .withoutEpsilon place => do
      let n : Nfa ← get? held .nfa place
      keep? (.ok n.withoutEpsilon)
  | .determinize place => do
      let n : Nfa ← get? held .nfa place
      keep? n.determinize
  | .toDfa place => do
      let n : Nfa ← get? held .nfa place
      keep? n.toDfa
  | .toNfa place => do
      let d : Dfa ← get? held .dfa place
      keep? (.ok d.toNfa)

/-- The automata with the one that a call has made: an edited one stays in its place. -/
def put (held : List Held) (h : Held) : Call → List Held
  | .edit _ place _ => held.set place h
  | _ => held ++ [h]

def step (held : List Held) (call : Call) : List Held :=
  match made held call with
  | some h => put held h call
  | none => held

def run (calls : List Call) : List Held := calls.foldl step []

end Session

end Automata
