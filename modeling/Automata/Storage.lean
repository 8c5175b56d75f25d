import Automata.Error
import Automata.Text.Utf8

/-! # Files

Files are named by paths and hold bytes. Writing replaces the whole contents of a file, and reading
gives them.
-/

namespace Automata

/-- The contents of the files that exist, by path. -/
def Storage := String → Option Bytes

namespace Storage

def empty : Storage := fun _ => none

def write (files : Storage) (path : String) (bytes : Bytes) : Storage :=
  fun other => if other = path then some bytes else files other

def read (files : Storage) (path : String) : Except Error Bytes :=
  match files path with
  | some bytes => .ok bytes
  | none => .error (.storage .notFound)

end Storage

end Automata
