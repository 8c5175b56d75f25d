import Automata.Text.Basic
import Automata.Unicode.Printable

/-! # Quoted characters

A character between single quotes, in a form that shows which character it is even when it would
not be seen: control characters, blanks other than the space, combining marks and unassigned
numbers are written by number.
-/

namespace Automata.Text

/-- The hexadecimal numeral of a number, in lower case. -/
def hexadecimal (n : Nat) : Text := Nat.toDigits 16 n

/-- How a character is written inside single quotes. -/
def escaped (c : Char) : Text :=
  match c with
  | '\x00' => ['\\', '0']
  | '\t' => ['\\', 't']
  | '\n' => ['\\', 'n']
  | '\r' => ['\\', 'r']
  | '\'' => ['\\', '\'']
  | '\\' => ['\\', '\\']
  | c =>
      if Unicode.isShown c then [c]
      else ['\\', 'u', '\x7b'] ++ hexadecimal c.toNat ++ ['\x7d']

/-- A character between single quotes. -/
def quoted (c : Char) : Text := '\'' :: escaped c ++ ['\'']

end Automata.Text
