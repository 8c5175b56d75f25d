import Automata.Error
import Automata.Text.Utf8

/-! # Numbers in the binary form

A number up to 250 is one byte. A larger one is a tag, which tells the width, and then two, four,
eight or sixteen bytes, lowest first. Encoding takes the narrowest width; decoding takes any width
that the place of the number allows.
-/

namespace Automata.Binary

/-- Reads something from the front of a sequence of bytes and gives back the rest. -/
abbrev Decoder (α : Type) := StateT Bytes (Except DecodeError) α

/-! ### Bytes -/

/-- The `count` low bytes of a number, lowest first. -/
def littleEndian : Nat → Nat → Bytes
  | 0, _ => []
  | count + 1, n => UInt8.ofNat (n % 256) :: littleEndian count (n / 256)

/-- The number whose bytes are given, lowest first. -/
def ofLittleEndian : Bytes → Nat
  | [] => 0
  | b :: rest => b.toNat + 256 * ofLittleEndian rest

def takeBytes (count : Nat) : Decoder Bytes := fun bytes =>
  if bytes.length < count then .error (.unexpectedEnd (count - bytes.length))
  else .ok (bytes.take count, bytes.drop count)

def takeByte : Decoder UInt8 := fun bytes =>
  match bytes with
  | [] => .error (.unexpectedEnd 1)
  | b :: rest => .ok (b, rest)

/-! ### Numbers -/

def encodeNumber (n : Nat) : Bytes :=
  if n < 251 then [UInt8.ofNat n]
  else if n < 0x10000 then 251 :: littleEndian 2 n
  else if n < 0x100000000 then 252 :: littleEndian 4 n
  else if n < 0x10000000000000000 then 253 :: littleEndian 8 n
  else 254 :: littleEndian 16 n

/-- The number in the next `count` bytes. -/
def takeNumber (count : Nat) : Decoder Nat := do
  return ofLittleEndian (← takeBytes count)

/-- Refuses a number that is too wide for its place. -/
def refuse (expected found : Width) : Decoder Nat := fun _ => .error (.tooWide expected found)

def decodeU32 : Decoder Nat := do
  let tag := (← takeByte).toNat
  if tag < 251 then return tag
  else if tag = 251 then takeNumber 2
  else if tag = 252 then takeNumber 4
  else if tag = 253 then refuse .u32 .u64
  else if tag = 254 then refuse .u32 .u128
  else refuse .u32 .reserved

/-- The width that a refused tag of a number of at most 64 bits is reported against. A full number
takes nine bytes; where as many are at hand the narrower width is named. -/
def reportedWidth (available : Nat) : Width := if 9 ≤ available then .u32 else .u64

def decodeU64 : Decoder Nat := do
  let expected := reportedWidth (← get).length
  let tag := (← takeByte).toNat
  if tag < 251 then return tag
  else if tag = 251 then takeNumber 2
  else if tag = 252 then takeNumber 4
  else if tag = 253 then takeNumber 8
  else if tag = 254 then refuse expected .u128
  else refuse expected .reserved

end Automata.Binary
