import Automata.Machine.Basic

/-! # Byte automata

A byte automaton is a finite deterministic automaton that reads bytes. Some of its states are
halted: no text matches from there. Whether a text matches is asked at its end. Its moves on ASCII
characters, as far as they lead to states that are not halted, form a deterministic automaton over
characters.
-/

namespace Automata

/-- A finite deterministic automaton that reads bytes. -/
structure ByteAutomaton where
  size : Nat
  start : Fin size
  next : Fin size → UInt8 → Fin size
  halted : Fin size → Bool
  matchesAtEnd : Fin size → Bool

namespace ByteAutomaton

def asciiAlphabet : OrderedSet Char := .ofList ((List.range 128).map Char.ofNat)

/-- The machine that reads ASCII characters as bytes and stops before halted states. -/
def asciiMachine (b : ByteAutomaton) : Machine (Fin b.size) where
  start := b.start
  next q c :=
    if c.toNat < 128 then
      let r := b.next q (UInt8.ofNat c.toNat)
      if b.halted r then none else some r
    else none
  accepting := b.matchesAtEnd

/-- The deterministic automaton of the states that ASCII characters lead to from the start. -/
def toDfa (b : ByteAutomaton) : Dfa := b.asciiMachine.toDfa asciiAlphabet b.size

end ByteAutomaton

end Automata
