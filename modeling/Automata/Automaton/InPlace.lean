import Automata.Automaton.Edit

/-! # Edits in place

An edit in place writes into the automaton as it goes. When it fails, what it has written so far
stays written: a transition opens the row of its source before it is known whether the row has
room for the target. Edits can be carried out one after the other up to the first failure, or each
can be tried in its turn, on whatever the ones before it have left.
-/

namespace Automata

/-- A computation on one automaton, which stays as it was last written when the computation
fails. -/
abbrev InPlace (k : Kind) := EStateM Error (Automaton k)

/-- The automaton with a row for `s`, which is empty if there was none. -/
def Automaton.openRow {k : Kind} (a : Automaton k) (s : State) : Automaton k :=
  match a.rows.get? s with
  | some _ => a
  | none => { a with rows := a.rows.insert s ∅ }

namespace InPlace

variable {k : Kind}

def checkState (s : State) : InPlace k Unit := do
  let a ← get
  if s < a.stateCount then return else throw (.invalidState s a.stateCount)

def markInitial (s : State) : InPlace k Unit := do
  checkState s
  match (← get).initial with
  | some current =>
      if current = s then
        modify fun a => { a with initial := some s }
      else throw (.initialAlreadySet current s)
  | none => modify fun a => { a with initial := some s }

def markFinal (s : State) : InPlace k Unit := do
  checkState s
  modify fun a => { a with finals := a.finals.insert s }

/-- Adds a transition: opens the row of the source and then adds the target to those that the row
holds for the symbol. -/
def connect (t : Transition) : InPlace k Unit := do
  checkState t.source
  checkState t.target
  modify (·.openRow t.source)
  match (← get).target? t.source t.symbol with
  | none => modify (·.setTarget t.source t.symbol (Target.single k t.target))
  | some held =>
      match Target.add held t.target with
      | .ok grown => modify (·.setTarget t.source t.symbol grown)
      | .error existing => throw (.conflictingMove t.source t.symbol existing t.target)

end InPlace

namespace Edit

def perform : {k : Kind} → Edit k → InPlace k Unit
  | _, addState => modify Automaton.addState
  | _, requireStates n => modify (·.requireStates n)
  | _, markInitial s => InPlace.markInitial s
  | _, markFinal s => InPlace.markFinal s
  | _, addTransition source c target => InPlace.connect ⟨source, .char c, target⟩
  | _, addEpsilon source target => InPlace.connect ⟨source, .epsilon, target⟩

/-- The automaton that an edit in place leaves, whether it goes through or fails. -/
def left {k : Kind} (a : Automaton k) (e : Edit k) : Automaton k :=
  match e.perform.run a with
  | .ok _ b => b
  | .error _ b => b

/-- The automaton that edits in place leave when each is tried in its turn. -/
def leftAll {k : Kind} (a : Automaton k) (edits : List (Edit k)) : Automaton k :=
  edits.foldl left a

def performAll {k : Kind} (edits : List (Edit k)) : InPlace k Unit :=
  edits.forM perform

/-- The edits that go through when each is tried in its turn. -/
def passed {k : Kind} (a : Automaton k) : List (Edit k) → List (Edit k)
  | [] => []
  | e :: edits =>
      match e.perform.run a with
      | .ok _ b => e :: passed b edits
      | .error _ b => passed b edits

end Edit

end Automata
