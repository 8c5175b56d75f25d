import Automata.Automaton.Basic
import Automata.Text.Utf8

/-! # Records of a transition list

A transition list has one record on each line. A record of one token names a final state; a record
of three tokens is a transition, written as source, target and symbol. Blank lines mean nothing.
This module reads single lines; every fault of a line is found here.
-/

namespace Automata.TransitionList

/-- What a line says. -/
inductive Record where
  | final (s : State)
  | transition (t : Transition)
deriving DecidableEq

namespace Record

def largest : Record → State
  | final s => s
  | transition t => max t.source t.target

end Record

/-- What to do with a line that has neither one token nor three. -/
inductive Policy where
  /-- The line is an error. -/
  | strict
  /-- The line is passed over. -/
  | lenient
deriving DecidableEq

/-! ### Lines -/

/-- A line without the carriage return that may end it; the line is given last byte first. -/
def dropReturn : Bytes → Bytes
  | 13 :: rest => rest
  | line => line

/-- Splits bytes after each line break, `line` being the part of the current line already read,
last byte first. Bytes after the last line break form a line only if there are any, and keep their
carriage return. -/
def linesAfter (line : Bytes) : Bytes → List Bytes
  | [] => if line.isEmpty then [] else [line.reverse]
  | b :: rest =>
      if b = 10 then (dropReturn line).reverse :: linesAfter [] rest
      else linesAfter (b :: line) rest

def lines (bytes : Bytes) : List Bytes := linesAfter [] bytes

/-! ### One line -/

def state? (line : Nat) (token : Text) : Except Error State :=
  match Text.numeral? stateLimit token with
  | some s => .ok s
  | none => .error (.invalidStateToken line token)

/-- Reads a symbol: one character, or the token of the empty move. -/
def symbol? (line : Nat) (token : Text) : Except Error Symbol :=
  if token = Symbol.epsilonToken then .ok .epsilon
  else
    match token with
    | [c] => .ok (.char c)
    | _ => .error (.invalidSymbol line token)

/-- What reading a line comes to. -/
inductive Reading where
  | blank
  | record (r : Record)
  /-- The line has the wrong number of tokens and is passed over. -/
  | skipped (content : Text)
  | bad (e : Error)
deriving DecidableEq

namespace Reading

/-- The reading of a record that may be at fault. -/
def ofExcept : Except Error Record → Reading
  | .ok r => record r
  | .error e => bad e

end Reading

/-- Reads a transition. The source is checked first, then the target, the symbol, and last that a
deterministic automaton gets no empty move. -/
def transition? (k : Kind) (line : Nat) (source target symbol : Text) : Except Error Record := do
  let source ← state? line source
  let target ← state? line target
  let symbol ← symbol? line symbol
  if k = .dfa ∧ symbol = .epsilon then throw (.epsilonInDfa line)
  return .transition ⟨source, symbol, target⟩

def readText (k : Kind) (policy : Policy) (line : Nat) (content : Text) : Reading :=
  match content.tokens with
  | [] => .blank
  | [s] => .ofExcept ((state? line s).map .final)
  | [source, target, symbol] => .ofExcept (transition? k line source target symbol)
  | tokens =>
      match policy with
      | .strict => .bad (.malformedRecord line tokens.length)
      | .lenient => .skipped content

def readLine (k : Kind) (policy : Policy) (line : Nat) (bytes : Bytes) : Reading :=
  match Utf8.decode? bytes with
  | some content => readText k policy line content
  | none => .bad (.storage .invalidText)

end Automata.TransitionList
