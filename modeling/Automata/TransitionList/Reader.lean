import Automata.TransitionList.Record
import Automata.Journal

/-! # Reading transition lists

All lines are read before any record takes effect, so the first bad line decides whatever the
records before it say. Then the states up to the largest one named are made, state zero becomes
initial, and the records are entered in order. The first one that cannot be entered is the error.
-/

namespace Automata.TransitionList

/-- A record with the number of its line. -/
structure Entry where
  line : Nat
  record : Record
deriving DecidableEq

/-- The readings of lines numbered from `line` on. -/
def readingsFrom (k : Kind) (policy : Policy) (line : Nat) : List Bytes → List (Nat × Reading)
  | [] => []
  | bytes :: rest =>
      (line, readLine k policy line bytes) :: readingsFrom k policy (line + 1) rest

/-- The readings of all lines, numbered from one. -/
def readings (k : Kind) (policy : Policy) (bytes : Bytes) : List (Nat × Reading) :=
  readingsFrom k policy 1 (lines bytes)

/-- The records of the lines, unless a line is bad. The first bad line is the error. -/
def entries : List (Nat × Reading) → Except Error (List Entry)
  | [] => .ok []
  | (line, reading) :: rest =>
      match reading with
      | .bad e => .error e
      | .record r => (entries rest).map (⟨line, r⟩ :: ·)
      | .blank | .skipped _ => entries rest

/-- The number of states of a list whose records are given: one more than the largest state named,
as far as that can be counted, and at least one. -/
def stateCount (es : List Entry) : Nat :=
  min ((es.map fun e => e.record.largest).foldl max 0 + 1) stateLimit

variable {k : Kind}

def enter (a : Automaton k) : Record → Except Error (Automaton k)
  | .final s => a.markFinal s
  | .transition t => a.connect t

def enterAll (a : Automaton k) : List Entry → Except Error (Automaton k)
  | [] => .ok a
  | e :: rest =>
      match enter a e.record with
      | .ok b => enterAll b rest
      | .error err => .error err

def assemble (k : Kind) (es : List Entry) : Except Error (Automaton k) := do
  let a ← (Automaton.withStates k (stateCount es)).markInitial 0
  enterAll a es

def read (k : Kind) (policy : Policy) (bytes : Bytes) : Except Error (Automaton k) := do
  assemble k (← entries (readings k policy bytes))

/-! ### What reading reports -/

/-- The lines passed over, up to the first bad line. -/
def skips : List (Nat × Reading) → List Event
  | [] => []
  | (line, reading) :: rest =>
      match reading with
      | .bad _ => []
      | .skipped content => .lineSkipped line content :: skips rest
      | .blank | .record _ => skips rest

/-- The report on the first record that cannot be entered, if it is a transition. -/
def rejection (a : Automaton k) : List Entry → List Event
  | [] => []
  | e :: rest =>
      match enter a e.record, e.record with
      | .ok b, _ => rejection b rest
      | .error err, .transition _ => [.transitionRejected e.line err]
      | .error _, .final _ => []

/-- The report on entering the records. -/
def assemblyEvents (k : Kind) (es : List Entry) : List Event :=
  match assemble k es with
  | .ok a => [.readingFinished a.stateCount a.transitionCount]
  | .error _ =>
      match (Automaton.withStates k (stateCount es)).markInitial 0 with
      | .ok a => rejection a es
      | .error _ => []

def readEvents (k : Kind) (policy : Policy) (bytes : Bytes) : List Event :=
  let rs := readings k policy bytes
  .readingStarted :: skips rs ++
    match entries rs with
    | .ok es => assemblyEvents k es
    | .error _ => []

end Automata.TransitionList
