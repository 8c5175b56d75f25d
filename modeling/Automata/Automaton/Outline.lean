import Automata.Automaton.Basic

/-! # Outlines

An outline shows every part of an automaton, empty rows and empty sets of targets included, nested
and indented, with a comma after each part.
-/

namespace Automata

open Text (decimal)

/-- The lines of a part of an outline. -/
abbrev Block := List Text

namespace Block

def line (t : Text) : Block := [t]

/-- The block with `t` after its last line. -/
def follow (t : Text) : Block → Block
  | [] => [t]
  | [last] => [last ++ t]
  | first :: rest => first :: follow t rest

/-- Parts between an opening and a closing text, each part indented and followed by a comma. -/
def enclose (opening closing : Text) (parts : List Block) : Block :=
  if parts.isEmpty then [opening ++ closing]
  else
    opening :: (parts.flatMap fun part => (follow [','] part).map (("    ".toList) ++ ·)) ++
      [closing]

/-- Parts in braces after a name. -/
def braces (name : Text) (parts : List Block) : Block :=
  enclose (name ++ ['\x7b']) ['\x7d'] parts

/-- One part in round brackets after a name. -/
def wrap (name : Text) (part : Block) : Block :=
  enclose (name ++ ['(']) [')'] [part]

def labelled (key value : Block) : Block :=
  match value with
  | [] => key
  | first :: rest => follow (": ".toList ++ first) key ++ rest

def text : Block → Text
  | [] => []
  | [last] => last
  | first :: rest => first ++ '\n' :: text rest

end Block

namespace Automaton

open Block

def stateBlock (s : State) : Block := line (decimal s)

def symbolBlock : Symbol → Block
  | .char c => wrap "Char".toList (line (Text.quoted c))
  | .epsilon => line "Epsilon".toList

def targetBlock : {k : Kind} → k.Target → Block
  | .nfa, states => braces [] (states.toList.map stateBlock)
  | .dfa, state => stateBlock state

variable {k : Kind}

def outline (a : Automaton k) : Text :=
  let initial :=
    match a.initial with
    | some s => wrap "Some".toList (stateBlock s)
    | none => line "None".toList
  let row := fun (r : Row k) =>
    braces [] (r.entries.map fun (x, t) => labelled (symbolBlock x) (targetBlock t))
  text <| braces "Automaton ".toList
    [ labelled (line "state_count".toList) (line (decimal a.stateCount)),
      labelled (line "initial_state".toList) initial,
      labelled (line "final_states".toList) (braces [] (a.finals.toList.map stateBlock)),
      labelled (line "transitions".toList)
        (braces [] (a.rows.entries.map fun (s, r) => labelled (stateBlock s) (row r))) ]

end Automaton

end Automata
