import Automata.Text.Basic
import Automata.Unicode.CharSet

/-! # Pattern expressions

An expression says what a pattern matches and which match is preferred. It is built from texts, sets
of characters and conditions on places between characters by sequence, choice and repetition. Choice
and repetition are ordered: earlier alternatives are preferred, and a greedy repetition prefers to
go on.

Expressions are built by functions that keep them in one form. A sequence nests to the right and
holds no sequence, no empty expression and no two neighbouring texts; a choice nests to the right
and holds no choice. So parts that say the same are equal, and what all alternatives of a choice
begin with is found by comparison and written once, before the choice. This is more than a saving:
`a?ab|a?bc` prefers `ab` at the start of `abc`, whereas `a?(?:ab|bc)` prefers `abc`.
-/

namespace Automata.Pattern

/-! ### Conditions on places -/

/-- The sides of a word boundary that a condition asks for. -/
inductive WordEdge where
  | boundary
  | noBoundary
  | start
  | finish
  | startHalf
  | finishHalf
deriving DecidableEq

/-- A condition on a place between characters. -/
inductive Look where
  | textStart
  | textEnd
  | lineStart
  | lineEnd
  | lineStartCrlf
  | lineEndCrlf
  /-- A condition on the word characters on both sides, of all scripts or of ASCII. -/
  | word (unicode : Bool) (edge : WordEdge)
deriving DecidableEq

/-! ### Expressions -/

/-- What a pattern matches, with preferences. -/
inductive Expr where
  | empty
  /-- The characters of a text, one after the other. -/
  | literal (t : Text)
  /-- One character of a set. Sets written as characters of all scripts and sets written as bytes
  are kept apart. -/
  | chars (unicode : Bool) (s : CharSet)
  | look (l : Look)
  /-- A numbered group. Groups with different numbers differ, whatever they hold. -/
  | group (number : Nat) (body : Expr)
  | cat (first rest : Expr)
  | alt (first rest : Expr)
  | rep (body : Expr) (least : Nat) (most : Option Nat) (greedy : Bool)
deriving DecidableEq

namespace Expr

/-- One character of a set. If the set has one member this is the text of it, and a set without
members is written in one way only. -/
def ofSet (unicode : Bool) (s : CharSet) : Expr :=
  match s.single? with
  | some c => literal [c]
  | none => chars (unicode && !s.isEmpty) s

/-! ### Sequences -/

def parts : Expr → List Expr
  | empty => []
  | cat first rest => first :: parts rest
  | e => [e]

def isSequence : Expr → Bool
  | cat .. => true
  | _ => false

/-- Parts with neighbouring texts put together. -/
def joined : List Expr → List Expr
  | [] => []
  | literal t :: rest =>
      match joined rest with
      | literal u :: others => literal (t ++ u) :: others
      | others => literal t :: others
  | e :: rest => e :: joined rest

/-- The sequence of parts that are in the form of a sequence already. -/
def sequence : List Expr → Expr
  | [] => empty
  | [e] => e
  | e :: rest => cat e (sequence rest)

/-- The sequence of any expressions. -/
def ofParts (es : List Expr) : Expr := sequence (joined (es.flatMap parts))

/-! ### Choices -/

def branches : Expr → List Expr
  | alt first rest => first :: branches rest
  | e => [e]

/-- The choice among alternatives that are in the form of a choice already. -/
def alternatives : List Expr → Expr
  | [] => chars false .empty
  | [e] => e
  | e :: rest => alt e (alternatives rest)

/-- The set of the alternatives, where each of them is the text of one character. -/
def characters? : List Expr → Option CharSet
  | [] => some .empty
  | literal [c] :: rest => return (CharSet.single c).union (← characters? rest)
  | _ => none

/-- The union of the alternatives, where each of them is a set of characters. -/
def sets? : List Expr → Option CharSet
  | [] => some .empty
  | chars _ s :: rest => return s.union (← sets? rest)
  | _ => none

def choice (es : List Expr) : Expr :=
  match es.flatMap branches with
  | [e] => e
  | flat =>
      match (characters? flat).or (sets? flat) with
      | some s => ofSet true s
      | none => alternatives flat

/-- The parts that two lists of parts both begin with. -/
def common : List Expr → List Expr → List Expr
  | a :: as, b :: bs => if a = b then a :: common as bs else []
  | _, _ => []

/-- The parts that all alternatives begin with, where all of them are sequences. -/
def shared : List Expr → List Expr
  | [] => []
  | e :: rest =>
      if (e :: rest).all isSequence then rest.foldl (fun found b => common found b.parts) e.parts
      else []

/-- The choice among any expressions, after what all of them begin with. -/
def ofBranches (es : List Expr) : Expr :=
  match choice es with
  | alt first rest =>
      let flat := branches (alt first rest)
      match shared flat with
      | [] => alt first rest
      | found => ofParts (found ++ [choice (flat.map fun e => sequence (e.parts.drop found.length))])
  | e => e

/-! ### Repetitions -/

/-- Whether the expression holds no character, so that it matches the empty text at most. -/
def isEmptyOnly : Expr → Bool
  | empty | look _ => true
  | literal _ | chars .. => false
  | group _ body => body.isEmptyOnly
  | cat a b => a.isEmptyOnly && b.isEmptyOnly
  | alt a b => a.isEmptyOnly && b.isEmptyOnly
  | rep body .. => body.isEmptyOnly

/-- The least number of characters of a match, where every set in the expression has a member. -/
def leastLength : Expr → Option Nat
  | empty | look _ => some 0
  | literal t => some t.length
  | chars _ s => if s.isEmpty then none else some 1
  | group _ body => body.leastLength
  | cat a b => return (← a.leastLength) + (← b.leastLength)
  | alt a b => return min (← a.leastLength) (← b.leastLength)
  | rep body least .. => return (← body.leastLength) * least

/-- Whether the expression is known to match no empty text. -/
def alwaysTakes (e : Expr) : Bool := e.leastLength.any (0 < ·)

/-- A repetition. One of an expression without characters need not go past the first time; one of
no times is empty and one of exactly one time is its body. -/
def repeated (body : Expr) (least : Nat) (most : Option Nat) (greedy : Bool) : Expr :=
  let (least, most) :=
    if body.isEmptyOnly then (min least 1, some (min (most.getD 1) 1)) else (least, most)
  if least = 0 ∧ most = some 0 then empty
  else if least = 1 ∧ most = some 1 then body
  else rep body least most greedy

end Expr

end Automata.Pattern
