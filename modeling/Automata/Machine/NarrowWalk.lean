import Automata.Machine.Walk

/-! # Walks with numbers of 32 bits

A walk that is carried out has 32 bits for a number. It looks up the number of a node by the node. A
node that is met for the first time gets the number of nodes met so far, cut down to 32 bits, and
the number of states is cut down in the same way. Nothing stops such a walk when the numbers run
out: nodes would then share numbers.

A walk goes on in turns. In each turn the node that has waited longest is taken from the queue and
expanded, and there is no further turn when no node waits (`NarrowWalk.After`).
-/

namespace Automata

/-- The number of 32 bits that a count is cut down to. -/
def truncated (count : Nat) : State := count % (stateLimit + 1)

/-- A transition with its states cut down. -/
def Transition.truncated (t : Transition) : Transition :=
  { t with source := Automata.truncated t.source, target := Automata.truncated t.target }

/-- What a walk with numbers of 32 bits has noted: besides the notes of any walk, the number of each
node met, and the nodes that were ever put in the queue, in order. -/
structure NarrowWalk (σ : Type) extends Walk σ where
  numbers : List (σ × State)
  queued : List σ

namespace NarrowWalk

variable {σ : Type} [DecidableEq σ]

def start (q : σ) : NarrowWalk σ := ⟨.start q, [(q, 0)], [q]⟩

/-- Meets a node and gives its number. Unless it has been met before, it gets the next number and
has to wait. -/
def meet (w : NarrowWalk σ) (q : σ) : State × NarrowWalk σ :=
  match w.numbers.lookup q with
  | some i => (i, w)
  | none =>
      let i := truncated w.met.length
      (i, { w with
        met := w.met ++ [q]
        queue := w.queue ++ [(q, i)]
        numbers := w.numbers ++ [(q, i)]
        queued := w.queued ++ [q] })

def follow (m : Machine σ) (q : σ) (i : State) (w : NarrowWalk σ) (c : Char) : NarrowWalk σ :=
  match m.next q c with
  | none => w
  | some r =>
      let (j, w) := w.meet r
      { w with moves := w.moves ++ [⟨i, .char c, j⟩] }

def noteFinal (m : Machine σ) (q : σ) (i : State) (w : NarrowWalk σ) : NarrowWalk σ :=
  if m.accepting q then { w with finals := w.finals ++ [i] } else w

def expand (m : Machine σ) (alphabet : OrderedSet Char) (q : σ) (i : State) (w : NarrowWalk σ) :
    NarrowWalk σ :=
  alphabet.toList.foldl (follow m q i) (noteFinal m q i w)

/-- One turn: the node that has waited longest is taken from the queue and expanded. There is none
when no node waits. -/
def turn (m : Machine σ) (alphabet : OrderedSet Char) (w : NarrowWalk σ) :
    Option ((σ × State) × NarrowWalk σ) :=
  match w.queue with
  | [] => none
  | (q, i) :: queue => some ((q, i), expand m alphabet q i { w with queue := queue })

/-- `After m alphabet taken w` says that the walk from the start of the machine has noted `w` after
one turn for each node of `taken`, in this order. -/
inductive After (m : Machine σ) (alphabet : OrderedSet Char) :
    List (σ × State) → NarrowWalk σ → Prop
  | start : After m alphabet [] (.start m.start)
  | turn {taken : List (σ × State)} {w next : NarrowWalk σ} {p : σ × State} :
      After m alphabet taken w → w.turn m alphabet = some (p, next) →
        After m alphabet (taken ++ [p]) next

def toDfa (w : NarrowWalk σ) : Dfa :=
  w.moves.foldl Dfa.setMove { w.states with stateCount := truncated w.met.length }

end NarrowWalk

end Automata
