/-! # Sets of characters

A set of characters is given by its edges: the numbers, in ascending order, at which membership
changes when all numbers are walked through from zero. Two sets are combined by one such walk over
both lists of edges.
-/

namespace Automata

/-- A set of character numbers, given by the ascending numbers at which membership changes. -/
structure CharSet where
  edges : List Nat
deriving DecidableEq, Inhabited

namespace CharSet

/-- Whether a number is inside, after the edges up to it have been passed. -/
def containsFrom (inside : Bool) (n : Nat) : List Nat → Bool
  | [] => inside
  | e :: rest => if n < e then inside else containsFrom (!inside) n rest

def contains (s : CharSet) (n : Nat) : Bool := containsFrom false n s.edges

def isEmpty (s : CharSet) : Bool := s.edges.isEmpty

def empty : CharSet := ⟨[]⟩

/-- The numbers from `first` to `last`, both included. -/
def range (first last : Nat) : CharSet := ⟨[first, last + 1]⟩

def single (c : Char) : CharSet := range c.toNat c.toNat

/-- The only member of a set, if there is one. -/
def single? (s : CharSet) : Option Char :=
  match s.edges with
  | [first, next] => if next = first + 1 ∧ first.isValidChar then some (Char.ofNat first) else none
  | _ => none

/-- The set of separate ranges in ascending order, no two of them adjacent. -/
def ofRanges (ranges : List (Nat × Nat)) : CharSet :=
  ⟨ranges.flatMap fun r => [r.1, r.2 + 1]⟩

/-! ### Combination -/

/-- Walks over the edges of two sets. `inA` and `inB` tell whether the walk is inside each of them
and `out` whether it is inside the combination; an edge is kept where the combination changes. -/
def sweep (op : Bool → Bool → Bool) : Nat → Bool → Bool → Bool → List Nat → List Nat → List Nat
  | 0, _, _, _, _, _ => []
  | _ + 1, _, _, _, [], [] => []
  | steps + 1, inA, inB, out, a :: as, [] =>
      let now := op (!inA) inB
      if now = out then sweep op steps (!inA) inB now as []
      else a :: sweep op steps (!inA) inB now as []
  | steps + 1, inA, inB, out, [], b :: bs =>
      let now := op inA (!inB)
      if now = out then sweep op steps inA (!inB) now [] bs
      else b :: sweep op steps inA (!inB) now [] bs
  | steps + 1, inA, inB, out, a :: as, b :: bs =>
      if a < b then
        let now := op (!inA) inB
        if now = out then sweep op steps (!inA) inB now as (b :: bs)
        else a :: sweep op steps (!inA) inB now as (b :: bs)
      else if b < a then
        let now := op inA (!inB)
        if now = out then sweep op steps inA (!inB) now (a :: as) bs
        else b :: sweep op steps inA (!inB) now (a :: as) bs
      else
        let now := op (!inA) (!inB)
        if now = out then sweep op steps (!inA) (!inB) now as bs
        else a :: sweep op steps (!inA) (!inB) now as bs

/-- The numbers whose memberships in the two sets `op` combines to true. Numbers in neither set
are left out. -/
def combine (op : Bool → Bool → Bool) (s t : CharSet) : CharSet :=
  ⟨sweep op (s.edges.length + t.edges.length) false false false s.edges t.edges⟩

def union : CharSet → CharSet → CharSet := combine fun a b => a || b

def inter : CharSet → CharSet → CharSet := combine fun a b => a && b

def diff : CharSet → CharSet → CharSet := combine fun a b => a && !b

def symmDiff : CharSet → CharSet → CharSet := combine fun a b => a != b

/-- All characters. The numbers between the two ranges name none. -/
def all : CharSet := ofRanges [(0, 0xD7FF), (0xE000, 0x10FFFF)]

def ascii : CharSet := range 0 0x7F

/-- The letters, the digits and the low line among the first 128 characters. -/
def asciiWord : CharSet := ofRanges [(0x30, 0x39), (0x41, 0x5A), (0x5F, 0x5F), (0x61, 0x7A)]

def isAscii (s : CharSet) : Bool := (s.diff ascii).isEmpty

end CharSet

end Automata
