/-! # Text

A text is its list of characters. This module holds the blank characters, the tokens that blanks
separate, decimal numerals, and ways to put texts together.
-/

namespace Automata

/-- A text, as its list of characters. -/
abbrev Text := List Char

def isBlank (c : Char) : Bool :=
  let n := c.toNat
  (9 ≤ n && n ≤ 13) || n == 0x20 || n == 0x85 || n == 0xA0 || n == 0x1680 ||
    (0x2000 ≤ n && n ≤ 0x200A) || n == 0x2028 || n == 0x2029 || n == 0x202F || n == 0x205F ||
    n == 0x3000

namespace Text

/-! ### Tokens -/

/-- Splits a text at its blanks, `word` being the part of the current token already read, last
character first. -/
def tokensAfter (word : Text) : Text → List Text
  | [] => if word.isEmpty then [] else [word.reverse]
  | c :: rest =>
      if isBlank c then
        if word.isEmpty then tokensAfter [] rest else word.reverse :: tokensAfter [] rest
      else tokensAfter (c :: word) rest

/-- The longest parts of a text that hold no blank, in order. -/
def tokens (t : Text) : List Text := tokensAfter [] t

/-- The text without its leading and trailing blanks. -/
def trim (t : Text) : Text :=
  ((t.dropWhile isBlank).reverse.dropWhile isBlank).reverse

/-! ### Decimal numerals -/

/-- The decimal numeral of a number, without leading zeros. -/
def decimal (n : Nat) : Text := Nat.toDigits 10 n

/-- The number that a text of decimal digits continues from `n`. -/
def digitsFrom (n : Nat) : Text → Option Nat
  | [] => some n
  | c :: rest => if c.isDigit then digitsFrom (10 * n + (c.toNat - '0'.toNat)) rest else none

/-- The number that a nonempty text of decimal digits denotes. Leading zeros are allowed. -/
def digits? (t : Text) : Option Nat :=
  if t.isEmpty then none else digitsFrom 0 t

/-- Reads a numeral of at most `limit`, with an optional leading plus sign. -/
def numeral? (limit : Nat) (t : Text) : Option Nat :=
  let body := if t.head? = some '+' then t.tail else t
  (digits? body).filter (· ≤ limit)

/-! ### Putting texts together -/

def join (between : Text) : List Text → Text
  | [] => []
  | [t] => t
  | t :: rest => t ++ between ++ join between rest

/-- The texts in order, each ended by a line break. -/
def unlines (ts : List Text) : Text := ts.flatMap fun t => t ++ ['\n']

/-- Numerals between two brackets, with commas. -/
def numerals (opening closing : Char) (ns : List Nat) : Text :=
  opening :: join [',', ' '] (ns.map decimal) ++ [closing]

end Text

end Automata
