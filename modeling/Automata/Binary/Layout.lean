import Automata.Automaton.Basic
import Automata.Binary.Number

/-! # The layout of the binary form

The binary form spells an automaton out: the number of states, the initial state if there is one,
the final states, and the rows with their entries, each collection after its length. A layout is
such a spelling, with every collection as a list. Collections may be spelled in any order and may
repeat themselves; in the automaton of a layout a repeated element counts once and a repeated key
keeps its last value.
-/

namespace Automata.Binary

/-- What is spelled for a symbol of a row. -/
abbrev Spelled : Kind → Type
  | .nfa => List State
  | .dfa => State

/-- A spelling of an automaton. -/
structure Layout (k : Kind) where
  stateCount : Nat
  initial : Option State
  finals : List State
  rows : List (State × List (Symbol × Spelled k))

/-! ### Encoding -/

/-- A collection: its length and its elements. -/
def encodeList {α : Type} (encode : α → Bytes) (xs : List α) : Bytes :=
  encodeNumber xs.length ++ xs.flatMap encode

/-- An initial state: a byte that tells whether there is one, then the state. -/
def encodeInitial : Option State → Bytes
  | none => [0]
  | some s => 1 :: encodeNumber s

/-- A symbol: 0 and the bytes of the character, or 1 for the empty move. -/
def encodeSymbol : Symbol → Bytes
  | .char c => 0 :: Utf8.encodeChar c
  | .epsilon => [1]

def encodeSpelled : (k : Kind) → Spelled k → Bytes
  | .nfa, states => encodeList encodeNumber states
  | .dfa, state => encodeNumber state

/-- A row: its entries. -/
def encodeRow (k : Kind) (row : List (Symbol × Spelled k)) : Bytes :=
  encodeList (fun p => encodeSymbol p.1 ++ encodeSpelled k p.2) row

def Layout.encode {k : Kind} (l : Layout k) : Bytes :=
  encodeNumber l.stateCount ++ encodeInitial l.initial ++ encodeList encodeNumber l.finals ++
    encodeList (fun p => encodeNumber p.1 ++ encodeRow k p.2) l.rows

/-! ### Decoding -/

def decodeMany {α : Type} (decode : Decoder α) : Nat → Decoder (List α)
  | 0 => pure []
  | count + 1 => do
      let x ← decode
      let rest ← decodeMany decode count
      return x :: rest

def decodeList {α : Type} (decode : Decoder α) : Decoder (List α) := do
  decodeMany decode (← decodeU64)

def decodeInitial : Decoder (Option State) := do
  let tag := (← takeByte).toNat
  if tag = 0 then return none
  else if tag = 1 then return some (← decodeU32)
  else throw (.invalidOption tag)

/-- Four bytes, as far as given, with zeros after them. -/
def padded (bytes : Bytes) : Bytes := (bytes ++ [0, 0, 0, 0]).take 4

/-- Reads a character: its first byte, which tells how many follow, and those. -/
def decodeCharacter : Decoder Char := do
  let lead ← takeByte
  if Utf8.width lead = 0 then throw (.invalidCharacter (padded [lead]))
  let rest ← takeBytes (Utf8.width lead - 1)
  match Utf8.decodeChar? (lead :: rest) with
  | some c => return c
  | none => throw (.invalidCharacter (padded (lead :: rest)))

def decodeSymbol : Decoder Symbol := do
  let tag ← decodeU32
  if tag = 0 then return .char (← decodeCharacter)
  else if tag = 1 then return .epsilon
  else throw (.invalidSymbol tag)

def decodeSpelled : (k : Kind) → Decoder (Spelled k)
  | .nfa => decodeList decodeU32
  | .dfa => decodeU32

def decodeEntry (k : Kind) : Decoder (Symbol × Spelled k) := do
  let x ← decodeSymbol
  let t ← decodeSpelled k
  return (x, t)

def decodeRow (k : Kind) : Decoder (State × List (Symbol × Spelled k)) := do
  let s ← decodeU32
  let row ← decodeList (decodeEntry k)
  return (s, row)

def Layout.decode (k : Kind) : Decoder (Layout k) := do
  let stateCount ← decodeU32
  let initial ← decodeInitial
  let finals ← decodeList decodeU32
  let rows ← decodeList (decodeRow k)
  return ⟨stateCount, initial, finals, rows⟩

/-! ### Layouts and automata -/

def Spelled.target : {k : Kind} → Spelled k → k.Target
  | .nfa, states => OrderedSet.ofList states
  | .dfa, state => state

/-- The spelling of a target, in ascending order. -/
def Spelled.ofTarget : {k : Kind} → k.Target → Spelled k
  | .nfa, states => OrderedSet.toList states
  | .dfa, state => state

namespace Layout

variable {k : Kind}

def rowOf (entries : List (Symbol × Spelled k)) : Row k :=
  .ofList (entries.map fun p => (p.1, Spelled.target p.2))

def automaton (l : Layout k) : Automaton k where
  stateCount := l.stateCount
  initial := l.initial
  finals := .ofList l.finals
  rows := .ofList (l.rows.map fun p => (p.1, rowOf p.2))

/-- The layout of an automaton in ascending order. -/
def ofAutomaton (a : Automaton k) : Layout k where
  stateCount := a.stateCount
  initial := a.initial
  finals := a.finals.toList
  rows := a.rows.entries.map fun p =>
    (p.1, p.2.entries.map fun q => (q.1, Spelled.ofTarget q.2))

end Layout

end Automata.Binary

namespace Automata.Automaton

open Binary

variable {k : Kind}

/-- The binary form of an automaton, its collections in ascending order. -/
def toBinary (a : Automaton k) : Bytes := (Layout.ofAutomaton a).encode

/-- The automaton whose binary form the bytes begin with. Bytes after it are passed over. What is
decoded must be valid. -/
def ofBinary (k : Kind) (bytes : Bytes) : Except Error (Automaton k) :=
  match Layout.decode k bytes with
  | .error e => .error (.decode e)
  | .ok (layout, _) => do
      layout.automaton.validate
      return layout.automaton

end Automata.Automaton
