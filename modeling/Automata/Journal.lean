import Automata.Error

/-! # Journals

Readers, writers and conversions report what they do. An event says what happened; its entry is
the line that is written about it.
-/

namespace Automata

/-- Something worth reporting. -/
inductive Event where
  | readingStarted
  | lineSkipped (line : Nat) (content : Text)
  | transitionRejected (line : Nat) (cause : Error)
  | readingFinished (states transitions : Nat)
  | writingStarted
  | writingFinished (transitions : Nat)
  | epsilonRemoved (before after : Nat)
  | subsetDiscovered (index : State) (subset : StateSet)
  | determinized (before after : Nat)
deriving DecidableEq

namespace Event

def level : Event → String
  | readingStarted | readingFinished .. | writingStarted | writingFinished .. => "INFO"
  | lineSkipped .. | transitionRejected .. => "WARN"
  | epsilonRemoved .. | determinized .. => "DEBUG"
  | subsetDiscovered .. => "TRACE"

def message : Event → String
  | readingStarted => "Reading automaton in transition-list format..."
  | lineSkipped line content =>
      s!"Skipping malformed record on line {line}: '{String.ofList content.trim}'"
  | transitionRejected line cause => s!"Rejected transition on line {line}: {cause.message}"
  | readingFinished states transitions =>
      s!"Finished reading automaton with {states} states and {transitions} transitions"
  | writingStarted => "Writing automaton in transition-list format..."
  | writingFinished transitions => s!"Finished writing {transitions} transitions"
  | epsilonRemoved before after =>
      s!"Removed epsilon transitions: {before} transitions became {after}"
  | subsetDiscovered index subset =>
      let members := String.ofList (Text.numerals '\x7b' '\x7d' subset.toList)
      s!"Discovered DFA state {index} = {members}"
  | determinized before after =>
      s!"Determinized NFA with {before} states into DFA with {after} states"

def entry (e : Event) : String := e.level ++ " " ++ e.message

end Event

end Automata
