import Automata.Error

/-! # Automata

An automaton has the states below `stateCount`, at most one initial state, a set of final states
and a table of rows. The row of a state gives, for each symbol, where the state moves: a set of
states in a nondeterministic automaton, one state in a deterministic one. The two kinds share
everything else.

A row may be empty and a set of targets may be empty; both come only from stored forms that spell
them out, and neither adds a transition.
-/

namespace Automata

/-- The two kinds of automata: nondeterministic, perhaps with empty moves, and deterministic. -/
inductive Kind where
  | nfa
  | dfa
deriving DecidableEq

/-- What a row holds for a symbol. -/
abbrev Kind.Target : Kind → Type
  | .nfa => StateSet
  | .dfa => State

namespace Target

instance decEq : (k : Kind) → DecidableEq k.Target
  | .nfa => inferInstanceAs (DecidableEq StateSet)
  | .dfa => inferInstanceAs (DecidableEq State)

/-- The states that a target names, ascending. -/
def toList : {k : Kind} → k.Target → List State
  | .nfa, states => OrderedSet.toList states
  | .dfa, state => [state]

/-- The target that names one state. -/
def single : (k : Kind) → State → k.Target
  | .nfa, state => OrderedSet.singleton state
  | .dfa, state => state

/-- The target with a state added. One that can hold a single state refuses a second one and gives
the state it holds. -/
def add : {k : Kind} → k.Target → State → Except State k.Target
  | .nfa, states, state => .ok (OrderedSet.insert state states)
  | .dfa, existing, state => if existing = state then .ok existing else .error existing

@[simp] theorem toList_single (k : Kind) (s : State) : toList (single k s) = [s] := by
  cases k <;> rfl

end Target

/-- A move from one state to another on a symbol. -/
structure Transition where
  source : State
  symbol : Symbol
  target : State
deriving DecidableEq

/-- What a state does on each symbol. -/
abbrev Row (k : Kind) := Table Symbol k.Target

/-- A finite automaton with the states below `stateCount`. -/
structure Automaton (k : Kind) where
  stateCount : Nat
  initial : Option State
  finals : StateSet
  rows : Table State (Row k)

/-- A nondeterministic automaton, perhaps with empty moves. -/
abbrev Nfa := Automaton .nfa

/-- A deterministic automaton: at most one move for each state and character. -/
abbrev Dfa := Automaton .dfa

namespace Automaton

variable {k : Kind}

instance : DecidableEq (Automaton k) := fun a b =>
  have := Target.decEq k
  decidable_of_iff (a.stateCount = b.stateCount ∧ a.initial = b.initial ∧ a.finals = b.finals ∧
    a.rows = b.rows) <| by
      cases a; cases b; simp

/-- The automaton with `n` states and nothing else. -/
def withStates (k : Kind) (n : Nat) : Automaton k :=
  ⟨n, none, ∅, ∅⟩

/-! ### Queries -/

def hasState (a : Automaton k) (s : State) : Bool := s < a.stateCount

/-- Refuses a number that is not one of the states. -/
def checkState (a : Automaton k) (s : State) : Except Error Unit :=
  if s < a.stateCount then .ok () else .error (.invalidState s a.stateCount)

def initialState (a : Automaton k) : Except Error State :=
  match a.initial with
  | some s => .ok s
  | none => .error .noInitial

def isInitial (a : Automaton k) (s : State) : Bool := a.initial == some s

def isFinal (a : Automaton k) (s : State) : Bool := s ∈ a.finals

/-- Whether the state `s` is final; `s` must be one of the states. -/
def checkFinal (a : Automaton k) (s : State) : Except Error Bool := do
  a.checkState s
  return a.isFinal s

def row (a : Automaton k) (s : State) : Row k := (a.rows.get? s).getD ∅

def target? (a : Automaton k) (s : State) (x : Symbol) : Option k.Target :=
  (a.row s).get? x

/-- The states that `s` moves to on `x`, ascending. -/
def targets (a : Automaton k) (s : State) (x : Symbol) : List State :=
  match a.target? s x with
  | some t => Target.toList t
  | none => []

/-- The states that `s` moves to on `x`; `s` must be one of the states. -/
def checkTargets (a : Automaton k) (s : State) (x : Symbol) : Except Error (List State) := do
  a.checkState s
  return a.targets s x

/-- The characters that occur in some row, ascending. -/
def alphabet (a : Automaton k) : OrderedSet Char :=
  .ofList (a.rows.entries.flatMap fun (_, row) => row.keys.toList.filterMap Symbol.char?)

/-- Every transition, by source, then symbol, then target. -/
def transitions (a : Automaton k) : List Transition :=
  a.rows.entries.flatMap fun (source, row) =>
    row.entries.flatMap fun (symbol, t) =>
      (Target.toList t).map fun target => ⟨source, symbol, target⟩

def transitionCount (a : Automaton k) : Nat := a.transitions.length

/-- Whether some row has an entry for the empty move. -/
def hasEpsilon (a : Automaton k) : Bool :=
  a.rows.entries.any fun (_, row) => (row.get? .epsilon).isSome

/-- Checks every state that the automaton mentions, and that a deterministic one has no empty
move: the initial state first, then the final states, then the transitions in order, each with its
source before its target. -/
def validate (a : Automaton k) : Except Error Unit := do
  match a.initial with
  | some s => a.checkState s
  | none => pure ()
  a.finals.toList.forM a.checkState
  a.transitions.forM fun t => do
    a.checkState t.source
    a.checkState t.target
    if k = .dfa ∧ t.symbol = .epsilon then throw (.unexpectedEpsilon t.source)

/-! ### Edits -/

def setTarget (a : Automaton k) (s : State) (x : Symbol) (t : k.Target) : Automaton k :=
  { a with rows := a.rows.insert s ((a.row s).insert x t) }

/-- The new state is named by the old number of states. -/
def addState (a : Automaton k) : Automaton k :=
  { a with stateCount := a.stateCount + 1 }

/-- The automaton grown to at least `n` states. -/
def requireStates (a : Automaton k) (n : Nat) : Automaton k :=
  { a with stateCount := max a.stateCount n }

/-- Makes `s` the initial state. It may be set again, but not moved. -/
def markInitial (a : Automaton k) (s : State) : Except Error (Automaton k) := do
  a.checkState s
  match a.initial with
  | none => return { a with initial := some s }
  | some current => if current = s then return a else throw (.initialAlreadySet current s)

def markFinal (a : Automaton k) (s : State) : Except Error (Automaton k) := do
  a.checkState s
  return { a with finals := a.finals.insert s }

/-- Adds a transition between states. In a deterministic automaton a second target for the same
state and symbol is refused. -/
def connect (a : Automaton k) (t : Transition) : Except Error (Automaton k) := do
  a.checkState t.source
  a.checkState t.target
  match a.target? t.source t.symbol with
  | none => return a.setTarget t.source t.symbol (Target.single k t.target)
  | some held =>
      match Target.add held t.target with
      | .ok grown => return a.setTarget t.source t.symbol grown
      | .error existing => throw (.conflictingMove t.source t.symbol existing t.target)

def addTransition (a : Automaton k) (source : State) (c : Char) (target : State) :
    Except Error (Automaton k) :=
  a.connect ⟨source, .char c, target⟩

end Automaton

namespace Nfa

def addEpsilon (n : Nfa) (source target : State) : Except Error Nfa :=
  n.connect ⟨source, .epsilon, target⟩

end Nfa

namespace Dfa

def next? (d : Dfa) (s : State) (c : Char) : Option State := d.target? s (.char c)

/-- Where the state `s` moves on `c`; `s` must be one of the states. -/
def checkNext (d : Dfa) (s : State) (c : Char) : Except Error (Option State) := do
  d.checkState s
  return d.next? s c

/-- The same automaton with each target as a set of one state. -/
def toNfa (d : Dfa) : Nfa where
  stateCount := d.stateCount
  initial := d.initial
  finals := d.finals
  rows := d.rows.map fun row => row.map (Target.single .nfa)

end Dfa

end Automata
