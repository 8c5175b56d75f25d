import Automata.Machine.Basic

/-! # Walks through a machine

A walk numbers the nodes of a machine as it meets them. The node that has waited longest is expanded
character by character; a node met for the first time gets the next number and waits for its turn.
Final states and transitions are noted on the way, and the automaton is put together at the end,
when the number of states is known.
-/

namespace Automata

/-- The automaton with a transition, in place of any other for the same state and symbol. -/
def Dfa.setMove (d : Dfa) (t : Transition) : Dfa :=
  d.setTarget t.source t.symbol (Target.single .dfa t.target)

/-- What a walk has noted: the nodes met, each numbered by its place, those that wait to be
expanded with their numbers, the final states and the transitions. -/
structure Walk (σ : Type) where
  met : List σ
  queue : List (σ × State)
  finals : List State
  moves : List Transition

namespace Walk

variable {σ : Type} [DecidableEq σ]

/-- The walk that has met only the node it begins in. -/
def start (q : σ) : Walk σ := ⟨[q], [(q, 0)], [], []⟩

/-- Meets a node. Unless it has been met before, it gets the next number and has to wait. -/
def meet (w : Walk σ) (q : σ) : Walk σ :=
  if q ∈ w.met then w
  else { w with met := w.met ++ [q], queue := w.queue ++ [(q, w.met.length)] }

/-- Follows the move of the node `q`, numbered `i`, on a character. -/
def follow (m : Machine σ) (q : σ) (i : State) (w : Walk σ) (c : Char) : Walk σ :=
  match m.next q c with
  | none => w
  | some r =>
      let w := w.meet r
      { w with moves := w.moves ++ [⟨i, .char c, w.met.idxOf r⟩] }

def noteFinal (m : Machine σ) (q : σ) (i : State) (w : Walk σ) : Walk σ :=
  if m.accepting q then { w with finals := w.finals ++ [i] } else w

def expand (m : Machine σ) (alphabet : OrderedSet Char) (q : σ) (i : State) (w : Walk σ) :
    Walk σ :=
  alphabet.toList.foldl (follow m q i) (noteFinal m q i w)

/-- Expands the nodes that wait, in the order in which they came. -/
def run (m : Machine σ) (alphabet : OrderedSet Char) : Nat → Walk σ → Walk σ
  | 0, w => w
  | fuel + 1, w =>
      match w.queue with
      | [] => w
      | (q, i) :: queue => run m alphabet fuel (expand m alphabet q i { w with queue := queue })

def states (w : Walk σ) : Dfa :=
  { Automaton.withStates .dfa w.met.length with
    initial := some 0
    finals := .ofList w.finals }

def toDfa (w : Walk σ) : Dfa := w.moves.foldl Dfa.setMove w.states

end Walk

def Machine.walk {σ : Type} [DecidableEq σ] (m : Machine σ) (alphabet : OrderedSet Char)
    (fuel : Nat) : Walk σ :=
  Walk.run m alphabet fuel (.start m.start)

end Automata
