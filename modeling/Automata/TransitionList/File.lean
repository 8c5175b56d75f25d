import Automata.Storage
import Automata.TransitionList.Reader
import Automata.TransitionList.Writer

/-! # Transition lists in files

Saving opens the file first, which empties it, and then writes; loading reads the whole file.
-/

namespace Automata

namespace TransitionList

variable {k : Kind}

/-- Saves the transition list of an automaton. The file is emptied before anything is known about
the automaton, so a failure leaves it empty. -/
def save (path : String) (a : Automaton k) (files : Storage) : Except Error Unit × Storage :=
  let opened := files.write path []
  match write a with
  | .ok text => (.ok (), opened.write path (Utf8.encode text))
  | .error e => (.error e, opened)

def load (k : Kind) (policy : Policy) (path : String) (files : Storage) :
    Except Error (Automaton k) := do
  read k policy (← files.read path)

end TransitionList

end Automata
