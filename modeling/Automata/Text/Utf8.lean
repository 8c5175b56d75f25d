import Automata.Text.Basic

/-! # UTF-8

The byte form of characters and texts. A character takes one to four bytes; the first byte tells
how many. Decoding refuses every byte sequence that encoding does not produce: stray and missing
continuation bytes, forms longer than needed, surrogates and numbers past the last character.
-/

namespace Automata

abbrev Bytes := List UInt8

namespace Utf8

/-! ### Encoding -/

/-- The continuation byte that carries the six low bits of `n`. -/
def continuation (n : Nat) : UInt8 := UInt8.ofNat (0x80 + n % 64)

def encodeChar (c : Char) : Bytes :=
  let n := c.toNat
  if n < 0x80 then [UInt8.ofNat n]
  else if n < 0x800 then [UInt8.ofNat (0xC0 + n / 64), continuation n]
  else if n < 0x10000 then
    [UInt8.ofNat (0xE0 + n / 4096), continuation (n / 64), continuation n]
  else
    [UInt8.ofNat (0xF0 + n / 262144), continuation (n / 4096), continuation (n / 64),
      continuation n]

def encode (t : Text) : Bytes := t.flatMap encodeChar

/-! ### Decoding -/

/-- The number of bytes of a character that begins with `b`, zero when none does. -/
def width (b : UInt8) : Nat :=
  let n := b.toNat
  if n < 0x80 then 1
  else if n < 0xC2 then 0
  else if n < 0xE0 then 2
  else if n < 0xF0 then 3
  else if n < 0xF5 then 4
  else 0

/-- The character numbered `n`, when there is one and `n` is at least `least`. -/
def scalar? (least n : Nat) : Option Char :=
  if least ≤ n ∧ n.isValidChar then some (Char.ofNat n) else none

/-- The six bits that a continuation byte carries. -/
def payload? (b : UInt8) : Option Nat :=
  if 0x80 ≤ b.toNat ∧ b.toNat < 0xC0 then some (b.toNat - 0x80) else none

/-- The character that is encoded by exactly these bytes. -/
def decodeChar? : Bytes → Option Char
  | [a] => if width a = 1 then scalar? 0 a.toNat else none
  | [a, b] =>
      if width a = 2 then do
        let x ← payload? b
        scalar? 0x80 ((a.toNat - 0xC0) * 64 + x)
      else none
  | [a, b, c] =>
      if width a = 3 then do
        let x ← payload? b
        let y ← payload? c
        scalar? 0x800 (((a.toNat - 0xE0) * 64 + x) * 64 + y)
      else none
  | [a, b, c, d] =>
      if width a = 4 then do
        let x ← payload? b
        let y ← payload? c
        let z ← payload? d
        scalar? 0x10000 ((((a.toNat - 0xF0) * 64 + x) * 64 + y) * 64 + z)
      else none
  | _ => none

def decode? : Bytes → Option Text
  | [] => some []
  | a :: rest =>
      match width a, rest with
      | 1, rest => do
          let x ← decodeChar? [a]
          let t ← decode? rest
          return x :: t
      | 2, b :: rest => do
          let x ← decodeChar? [a, b]
          let t ← decode? rest
          return x :: t
      | 3, b :: c :: rest => do
          let x ← decodeChar? [a, b, c]
          let t ← decode? rest
          return x :: t
      | 4, b :: c :: d :: rest => do
          let x ← decodeChar? [a, b, c, d]
          let t ← decode? rest
          return x :: t
      | _, _ => none

end Utf8

end Automata
