import Automata.Pattern.Graph
import Automata.Pattern.Meaning
import Automata.Pattern.Parser
import Automata.Pattern.Search

/-! # Compiling patterns

The automaton of a pattern accepts the texts that the pattern matches from their first character to
their last. The pattern is put into a group, after which the end of the text is asked for, and
compiled: parsed, given its meaning, laid out as a program, searched breadth-first over classes of
characters, and reduced to the states that behave differently.

Non-ASCII characters tell states apart like all others, although only ASCII characters label the
moves of the automaton.
-/

namespace Automata.Pattern

/-- The pattern that matches a text in full where `r` matches a part of it. -/
def wrapped (r : Text) : Text := "(?:".toList ++ r ++ ")$".toList

/-- The program of a pattern. No classes of Unicode are known. -/
def program (t : Text) : Except PatternError Program :=
  match Tree.parse? t >>= Expr.ofTree? ClassTable.none with
  | none => .error .malformed
  | some e =>
      let p := Program.ofExpr e
      if p.hasUnicodeWord then .error .unicodeWordBoundary else .ok p

/-- What can stand before a text. -/
def contexts : List Neighbour :=
  [.edge, .lineFeed, .carriageReturn, .terminator, .wordCharacter, .other]

namespace Program

variable (p : Program)

/-- An upper bound on the number of configurations: a configuration is a mark, a neighbour and a
list of different steps. -/
def configBound : Nat := 12 * Nat.pow (p.steps.size + 2) (p.steps.size + 2)

/-- All configurations that a search can come to, after any context. -/
def configs (classes : List CharClass) : List Config :=
  Exploration.discover (fun q => classes.map fun c => p.advance q c.sample) p.configBound
    (contexts.map p.initialConfig)

/-- The graph of the configurations, each named by its place in the order of discovery. -/
def graph (classes : List CharClass) : Graph :=
  let found := p.configs classes
  { marks := (found.map fun q => ⟨q.matched, p.acceptsAtEnd q⟩).toArray
    moves := (found.map fun q => classes.map fun c => found.idxOf (p.advance q c.sample)).toArray
    starts := contexts.map fun c => found.idxOf (p.initialConfig c) }

/-- The byte automaton of a program, unless what it matches depends on what stands before the
text. -/
def byteAutomaton? : Option ByteAutomaton :=
  let separators := p.separators
  let classes := charClasses separators
  let graph := (p.graph classes).merged
  let classOf := ((List.range 128).map fun n =>
    (classes.map CharClass.signature).idxOf (signature separators n)).toArray
  graph.start?.map (graph.byteAutomaton classOf)

end Program

end Automata.Pattern

namespace Automata.Dfa

open Pattern

/-- The automaton of the ASCII texts that a pattern matches in full, by the compiler at hand. -/
def ofPattern (r : Text) : Except Error Dfa :=
  match program (wrapped r) with
  | .error e => .error (.pattern e)
  | .ok p =>
      match p.byteAutomaton? with
      | some b => .ok b.toDfa
      | none => .error .contextDependent

end Automata.Dfa
