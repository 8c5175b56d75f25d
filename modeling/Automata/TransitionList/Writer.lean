import Automata.TransitionList.Record
import Automata.Journal

/-! # Writing transition lists

Transitions are written first and final states after them, each part in ascending order. A
transition list begins in state zero, so when an automaton begins elsewhere its initial state and
state zero trade names. A transition on a blank character cannot be written, since blanks separate
the tokens of a line.
-/

namespace Automata.TransitionList

open Text (decimal)

variable {k : Kind}

/-- The name of a state in the list of an automaton that begins in `initial`. -/
def rename (initial s : State) : State :=
  if s = initial then 0 else if s = 0 then initial else s

def renamed (initial : State) (t : Transition) : Transition :=
  ⟨rename initial t.source, t.symbol, rename initial t.target⟩

/-- Whether `t` is written no later than `u`: by source, then target, then symbol. -/
def notAfter (t u : Transition) : Bool :=
  t.source < u.source ||
    (t.source == u.source &&
      (t.target < u.target || (t.target == u.target && rank t.symbol ≤ rank u.symbol)))

/-- Places a transition before the first one that it is written no later than. -/
def place (t : Transition) : List Transition → List Transition
  | [] => [t]
  | u :: rest => if notAfter t u then t :: u :: rest else u :: place t rest

def sort (ts : List Transition) : List Transition := ts.foldr place []

def transitionLine (t : Transition) : Text :=
  decimal t.source ++ ' ' :: decimal t.target ++ ' ' :: t.symbol.text

/-- The source and the character of a transition on a blank character. -/
def blankMove? (t : Transition) : Option (State × Char) :=
  match t.symbol with
  | .char c => if isBlank c then some (t.source, c) else none
  | .epsilon => none

/-- The sources and characters of transitions on blank characters, each pair once. -/
def unwritable (a : Automaton k) : List (State × Char) :=
  (a.transitions.filterMap blankMove?).eraseDups

def writtenLines (initial : State) (a : Automaton k) : List Text :=
  (sort (a.transitions.map (renamed initial))).map transitionLine ++
    (OrderedSet.ofList (a.finals.toList.map (rename initial))).toList.map decimal

def write (a : Automaton k) : Except Error Text := do
  let initial ← a.initialState
  match unwritable a with
  | (s, c) :: _ => throw (.unwritableSymbol s c)
  | [] => return Text.unlines (writtenLines initial a)

/-- An order in which the transitions and the final states of an automaton are enumerated. -/
structure Enumeration (a : Automaton k) where
  transitions : List Transition
  finals : List State
  perm_transitions : transitions.Perm a.transitions
  perm_finals : finals.Perm a.finals.toList

namespace Enumeration

variable {a : Automaton k} (o : Enumeration a)

/-- The lines of an automaton that begins in `initial` and is enumerated in some order. -/
def lines (initial : State) : List Text :=
  (sort (o.transitions.map (renamed initial))).map transitionLine ++
    (OrderedSet.ofList (o.finals.map (rename initial))).toList.map decimal

/-- The transition on a blank character that comes first is reported. -/
def write : Except Error Text := do
  let initial ← a.initialState
  match o.transitions.findSome? blankMove? with
  | some (s, c) => throw (.unwritableSymbol s c)
  | none => return Text.unlines (o.lines initial)

end Enumeration

/-- Writes where there is room for `capacity` bytes. -/
def writeWithin (capacity : Nat) (a : Automaton k) : Except Error Text := do
  let text ← write a
  if (Utf8.encode text).length ≤ capacity then return text
  else throw (.storage .outOfSpace)

def writeEvents (a : Automaton k) (result : Except Error Text) : List Event :=
  .writingStarted ::
    match result with
    | .ok _ => [.writingFinished a.transitionCount]
    | .error _ => []

end Automata.TransitionList
