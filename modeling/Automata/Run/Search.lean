import Automata.Run.Closure

/-! # Searching with a stack

A search marks the states it meets. A state that is met for the first time is put on a stack; the
state on top is taken off and the states that it leads to are met in turn, until the stack is empty.
In which order a state leads to others is left open.
-/

namespace Automata

/-- What a search has done: the states marked, the stack with its top first, and all states that
were ever put on it, last one first. -/
structure Search where
  marked : StateSet
  stack : List State
  pushed : List State

namespace Search

/-- Meets a state. Unless it is marked, it is marked and put on the stack. -/
def meet (w : Search) (s : State) : Search :=
  if s ∈ w.marked then w else ⟨w.marked.insert s, s :: w.stack, s :: w.pushed⟩

/-- The search that has met its seeds. -/
def start (seeds : List State) : Search := seeds.foldl meet ⟨∅, [], []⟩

/-- Takes states off the stack and meets those that they lead to. -/
def run (succ : State → List State) : Nat → Search → Search
  | 0, w => w
  | fuel + 1, w =>
      match w.stack with
      | [] => w
      | s :: stack => run succ fuel ((succ s).foldl meet { w with stack := stack })

end Search

end Automata
