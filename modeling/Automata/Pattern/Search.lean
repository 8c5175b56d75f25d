import Automata.Pattern.Program
import Automata.Machine.Exploration
import Automata.Ordered.Set

/-! # Searching with a program

A search reads a text character by character and keeps the steps that it may go on from, in order
of preference. A step that is reached twice at a place keeps the better of its ranks.

Conditions are settled in two rounds: those that what stands before a place decides when the place
is reached, and the others when the next character has been seen. If a condition comes to hold in
the second round, the steps that wait are followed again, and a choice that was gone through in the
first round may be gone through again behind that condition.

Steps behind one that accepts are given up, because an earlier match is preferred. That a match
ended is known one character late, when the next character or the end of the text has been seen,
since a condition may look at it.
-/

namespace Automata.Pattern

/-- What stands on one side of a place, as far as conditions can tell. -/
inductive Neighbour where
  /-- The start or the end of the text. -/
  | edge
  | lineFeed
  | carriageReturn
  /-- A character that was chosen to end lines in place of the line feed. It stands before texts
  only. -/
  | terminator
  | wordCharacter
  | other
deriving DecidableEq

namespace Neighbour

/-- What a character is to its neighbours. -/
def ofNumber (n : Nat) : Neighbour :=
  if n = 10 then lineFeed
  else if n = 13 then carriageReturn
  else if CharSet.asciiWord.contains n then wordCharacter
  else other

def isWord : Neighbour → Bool
  | wordCharacter => true
  | _ => false

end Neighbour

def WordEdge.holds (before after : Bool) : WordEdge → Bool
  | boundary => before != after
  | noBoundary => before == after
  | start => !before && after
  | finish => before && !after
  | startHalf => !before
  | finishHalf => !after

namespace Look

/-- Whether a condition holds between two neighbours. A line may end in a carriage return and a
line feed, and there is no place between lines inside such an end. -/
def holds (before after : Neighbour) : Look → Bool
  | textStart => before = .edge
  | textEnd => after = .edge
  | lineStart => before = .edge ∨ before = .lineFeed ∨ before = .terminator
  | lineEnd => after = .edge ∨ after = .lineFeed
  | lineStartCrlf =>
      before = .edge ∨ before = .lineFeed ∨ (before = .carriageReturn ∧ after ≠ .lineFeed)
  | lineEndCrlf =>
      after = .edge ∨ after = .carriageReturn ∨ (after = .lineFeed ∧ before ≠ .carriageReturn)
  | word _ edge => edge.holds before.isWord after.isWord

/-- Whether a condition holds whatever comes after a place. A carriage return may be followed by a
line feed, so it does not settle that a line starts. -/
def holdsBehind (before : Neighbour) : Look → Bool
  | textStart => before = .edge
  | lineStart => before = .edge ∨ before = .lineFeed ∨ before = .terminator
  | lineStartCrlf => before = .edge ∨ before = .lineFeed
  | word _ .startHalf => !before.isWord
  | _ => false

/-- Whether a condition can tell apart two characters before a place. -/
def readsBefore : Look → Bool
  | textStart | textEnd | lineEnd => false
  | _ => true

end Look

/-! ### Configurations -/

/-- Where a search stands: whether the last character showed that a match had ended before it, what
stands before the place, and the steps that wait there, most preferred first. A step waits to take a
character, to accept, or at a condition; it waits at a condition also after that was passed. -/
structure Config where
  matched : Bool
  before : Neighbour
  waiting : List Nat
deriving DecidableEq

namespace Program

variable (p : Program)

def step (i : Nat) : Instr := p.steps.getD i .accept

/-- The steps that are reached from `stack` without taking a character, most preferred first, last
one first in `seen`. Each step is met once. -/
def follow (holds : Look → Bool) : Nat → List Nat → List Nat → List Nat
  | 0, _, seen => seen.reverse
  | _ + 1, [], seen => seen.reverse
  | fuel + 1, i :: stack, seen =>
      if i ∈ seen then follow holds fuel stack seen
      else
        match p.step i with
        | .choose options => follow holds fuel (options ++ stack) (i :: seen)
        | .pass l next =>
            if holds l then follow holds fuel (next :: stack) (i :: seen)
            else follow holds fuel stack (i :: seen)
        | .take .. | .accept => follow holds fuel stack (i :: seen)

/-- The number of ways to go on from all steps together, which bounds how often a step is met while
following. -/
def branching : Nat :=
  p.steps.toList.foldl (fun n i => n + i.ways) 0

/-- The steps that wait where `threads` lead, when the conditions that `holds` names are passed. -/
def closure (holds : Look → Bool) (threads : List Nat) : List Nat :=
  (p.follow holds (p.branching + threads.length + 1) threads []).filter fun i => (p.step i).waits

/-- Steps that wait, in the order in which a search keeps them. Where matches end only at the end of
the text no match is preferred to another, and the steps are put in ascending order. -/
def settle (waiting : List Nat) : List Nat :=
  if p.endsAtText then (OrderedSet.ofList waiting).toList else waiting

/-- Whether what comes after the place lets a waiting step pass a condition. -/
def opens (q : Config) (after : Neighbour) : Bool :=
  q.waiting.any fun i =>
    match p.step i with
    | .pass l _ => l.holds q.before after && !l.holdsBehind q.before
    | _ => false

/-- The steps that wait once what comes after the place is known, most preferred first. Steps are
followed again only where a condition came to hold. -/
def reached (q : Config) (after : Neighbour) : List Instr :=
  let waiting := if p.opens q after then p.closure (·.holds q.before after) q.waiting else q.waiting
  waiting.map p.step

def accepts : Instr → Bool
  | .accept => true
  | _ => false

/-- Whether a match ends where the search stands, if nothing follows. -/
def acceptsAtEnd (q : Config) : Bool := (p.reached q .edge).any accepts

/-- Whether what stands before a place matters beyond the start of the text. -/
def readsBefore : Bool := p.looks.any Look.readsBefore

/-- Where the search stands after a character with the given number. -/
def advance (q : Config) (n : Nat) : Config :=
  let here := Neighbour.ofNumber n
  let steps := p.reached q here
  let threads := (steps.takeWhile (!accepts ·)).filterMap fun
    | .take s next => if s.contains n then some next else none
    | _ => none
  { matched := steps.any accepts
    before := if p.readsBefore && !threads.isEmpty then here else .other
    waiting := p.settle (p.closure (·.holdsBehind here) threads) }

/-- Where a search begins when `before` stands before the text. -/
def initialConfig (before : Neighbour) : Config :=
  ⟨false, before, p.settle (p.closure (·.holdsBehind before) [p.start])⟩

/-! ### Classes of characters -/

/-- The sets that tell characters apart: those of the program, and those that conditions look
for. -/
def separators : List CharSet :=
  p.sets ++ if p.looks.isEmpty then []
    else [.range 10 10, .range 13 13, CharSet.asciiWord]

end Program

/-- Which of the sets hold a number. -/
def signature (separators : List CharSet) (n : Nat) : List Bool := separators.map (·.contains n)

/-- A class of characters that no set tells apart: its signature and one of its characters. -/
structure CharClass where
  signature : List Bool
  sample : Nat
deriving DecidableEq

def addClass (separators : List CharSet) (classes : List CharClass) (n : Nat) : List CharClass :=
  let s := signature separators n
  if classes.any (·.signature = s) then classes else classes ++ [⟨s, n⟩]

/-- The classes of characters. Membership changes only at the edges of the sets, so every signature
is found there; 57344 follows the numbers that name no character. -/
def charClasses (separators : List CharSet) : List CharClass :=
  let candidates := 0 :: 0xE000 :: separators.flatMap CharSet.edges
  (candidates.filter Nat.isValidChar).foldl (addClass separators) []

end Automata.Pattern
