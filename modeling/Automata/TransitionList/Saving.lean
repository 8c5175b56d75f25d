import Automata.TransitionList.File

/-! # Saving as it is carried out

A file that is opened for writing is emptied there and then, and what is written afterwards is put
at its end. Putting an automaton out looks for what cannot be written before the first line, but by
then the file has been opened.
-/

namespace Automata

/-- A computation on files, which stay as they were last written when the computation fails. -/
abbrev Filing := EStateM Error Storage

namespace Filing

/-- Opens a file for writing: it exists from now on, and nothing is in it. -/
def create (path : String) : Filing Unit :=
  modify (·.write path [])

def append (path : String) (bytes : Bytes) : Filing Unit :=
  modify fun files => files.write path ((files path).getD [] ++ bytes)

def appendLine (path : String) (line : Text) : Filing Unit :=
  append path (Utf8.encode (line ++ ['\n']))

end Filing

namespace TransitionList

variable {k : Kind}

/-- Puts the transition list of an automaton at the end of a file, line by line. -/
def putOut (path : String) (a : Automaton k) : Filing Unit :=
  match a.initial with
  | none => throw .noInitial
  | some initial =>
      match unwritable a with
      | (s, c) :: _ => throw (.unwritableSymbol s c)
      | [] => (writtenLines initial a).forM (Filing.appendLine path)

/-- Opens a file and puts the transition list of an automaton out to it. -/
def saving (path : String) (a : Automaton k) : Filing Unit := do
  Filing.create path
  putOut path a

end TransitionList

end Automata
