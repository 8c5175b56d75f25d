import Automata.Binary.Layout

/-! # Portable forms

What is handed on in place of an automaton is its binary form together with its kind, which tells
how the bytes are to be decoded again.
-/

namespace Automata

/-- The binary form of an automaton of the given kind. -/
structure Portable where
  kind : Kind
  bytes : Bytes
deriving DecidableEq

variable {k : Kind}

/-- What is handed on when the automaton is spelled out as in a layout. -/
def Binary.Layout.portable (l : Binary.Layout k) : Portable := ⟨k, l.encode⟩

/-- What is handed on in place of an automaton. -/
def Automaton.toPortable (a : Automaton k) : Portable := (Binary.Layout.ofAutomaton a).portable

def Portable.restore (p : Portable) : Except Error (Σ k, Automaton k) := do
  let a ← Automaton.ofBinary p.kind p.bytes
  return ⟨p.kind, a⟩

end Automata
