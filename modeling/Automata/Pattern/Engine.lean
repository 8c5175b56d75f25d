import Automata.Machine.Walk
import Automata.Pattern.Compile

/-! # Engines

An engine compiles a pattern to a finite automaton over bytes. Some of its states are dead, which
means that nothing matches any more, and in some of them the engine quits. Whether the bytes read so
far match shows in the state that the end of the text leads to. The automaton of a pattern is
imported by a walk that reads ASCII characters as bytes and enters neither dead nor quit states.
-/

namespace Automata

/-- A finite automaton over bytes, as an engine compiles it. It may have no state in which every
search begins. -/
structure Engine where
  size : Nat
  start : Option (Fin size)
  next : Fin size → UInt8 → Fin size
  atEnd : Fin size → Fin size
  dead : Fin size → Bool
  quit : Fin size → Bool
  isMatch : Fin size → Bool

namespace Engine

variable (e : Engine)

/-- Whether a text ends in a match in the state `q`. -/
def matchesAtEnd (q : Fin e.size) : Bool := e.isMatch (e.atEnd q)

/-- The byte automaton whose halted states are the dead and the quit ones. -/
def byteAutomaton (start : Fin e.size) : ByteAutomaton where
  size := e.size
  start := start
  next := e.next
  halted q := e.dead q || e.quit q
  matchesAtEnd := e.matchesAtEnd

def machine (start : Fin e.size) : Machine (Fin e.size) := (e.byteAutomaton start).asciiMachine

def walk (start : Fin e.size) : Walk (Fin e.size) :=
  (e.machine start).walk ByteAutomaton.asciiAlphabet e.size

def toDfa : Except Error Dfa :=
  match e.start with
  | some start => .ok (e.walk start).toDfa
  | none => .error .contextDependent

end Engine

/-- The automaton of the texts that a pattern matches in full, as an engine compiles it. -/
def Dfa.ofEngine (compile : Text → Except PatternError Engine) (r : Text) : Except Error Dfa :=
  match compile (Pattern.wrapped r) with
  | .error e => .error (.pattern e)
  | .ok e => e.toDfa

/-! ### The engine at hand -/

/-- A byte automaton as an engine gives it. The end of the text is no move here, and no state
quits. -/
def ByteAutomaton.engine (b : ByteAutomaton) : Engine where
  size := b.size
  start := some b.start
  next := b.next
  atEnd q := q
  dead := b.halted
  quit _ := false
  isMatch := b.matchesAtEnd

namespace Pattern

def Program.engine (p : Program) : Engine :=
  match p.byteAutomaton? with
  | some b => b.engine
  | none => ⟨0, none, fun q _ => q, id, fun _ => true, fun _ => false, fun _ => false⟩

/-- The engine at hand. -/
def engine (t : Text) : Except PatternError Engine := (program t).map Program.engine

end Pattern

end Automata
