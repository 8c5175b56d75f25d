import Automata.Text.Basic

/-! # Pattern trees

A pattern as it is written: groups, repetitions and classes nest, and flags stand where they were
set. What a flag changes is decided later, when the tree is given its meaning.
-/

namespace Automata.Pattern

/-! ### Leaves -/

/-- A character that stands for itself. One written by two hexadecimal digits stands for a byte
where patterns match bytes. -/
structure Literal where
  char : Char
  isByte : Bool
deriving DecidableEq

/-- A place between characters, as it is written. -/
inductive Assertion where
  /-- `^` -/
  | lineStart
  /-- `$` -/
  | lineEnd
  /-- `\A` -/
  | textStart
  /-- `\z` -/
  | textEnd
  /-- `\b` -/
  | wordBoundary
  /-- `\B` -/
  | notWordBoundary
  /-- `\<` and `\b{start}` -/
  | wordStart
  /-- `\>` and `\b{end}` -/
  | wordEnd
  /-- `\b{start-half}` -/
  | wordStartHalf
  /-- `\b{end-half}` -/
  | wordEndHalf
deriving DecidableEq

/-- The classes with an escape of one letter. -/
inductive ShortClass where
  | digit
  | blank
  | word
deriving DecidableEq

/-- What a class of Unicode is looked up by. -/
inductive ClassQuery where
  /-- `\pL` -/
  | letter (c : Char)
  /-- `\p{Greek}`. A property stands in one name with its value, as in `\p{sc=Greek}`. -/
  | named (name : Text)
deriving DecidableEq

/-- The classes of ASCII characters that have a name. -/
inductive NamedClass where
  | alnum
  | alpha
  | ascii
  | blank
  | cntrl
  | digit
  | graph
  | lower
  | print
  | punct
  | space
  | upper
  | word
  | xdigit
deriving DecidableEq

/-- What a flag in a pattern changes. -/
inductive Flag where
  /-- `i`: letters match in both cases. -/
  | ignoreCase
  /-- `m`: `^` and `$` match at lines. -/
  | multiLine
  /-- `s`: the dot matches line breaks. -/
  | dotAll
  /-- `U`: repetitions are lazy, and greedy where a question mark follows. -/
  | swapGreed
  /-- `u`: classes cover all scripts. -/
  | unicode
  /-- `R`: lines may end in a carriage return and a line feed. -/
  | crlf
  /-- `x`: blanks and comments are not part of the pattern. -/
  | verbose
deriving DecidableEq

/-- Flags with whether they are switched on or off. -/
abbrev FlagChanges := List (Flag × Bool)

/-- How the sets on both sides of an operator in a class are combined. -/
inductive SetOp where
  /-- `&&` -/
  | inter
  /-- `--` -/
  | diff
  /-- `~~` -/
  | symmDiff
deriving DecidableEq

/-! ### Classes -/

/-- What stands in a class in square brackets. -/
inductive ClassSet where
  | empty
  | literal (l : Literal)
  | range (first last : Literal)
  | named (c : NamedClass) (negated : Bool)
  | short (c : ShortClass) (negated : Bool)
  | unicode (q : ClassQuery) (negated : Bool)
  | bracketed (negated : Bool) (set : ClassSet)
  | union (items : List ClassSet)
  | binary (op : SetOp) (left right : ClassSet)

namespace ClassSet

/-- Items that stand side by side. -/
def ofItems : List ClassSet → ClassSet
  | [] => empty
  | [item] => item
  | items => union items

mutual

def depth : ClassSet → Nat
  | empty | literal _ | range .. | named .. | short .. | unicode .. => 0
  | bracketed _ set => 1 + depth set
  | union items => 1 + depthAll items
  | binary _ left right => 1 + max (depth left) (depth right)

def depthAll : List ClassSet → Nat
  | [] => 0
  | item :: rest => max (depth item) (depthAll rest)

end

end ClassSet

/-! ### Trees -/

/-- A pattern as it is written. -/
inductive Tree where
  | empty
  | flags (changes : FlagChanges)
  | literal (l : Literal)
  | dot
  | assertion (a : Assertion)
  | short (c : ShortClass) (negated : Bool)
  | unicode (q : ClassQuery) (negated : Bool)
  | bracketed (negated : Bool) (set : ClassSet)
  | repetition (body : Tree) (least : Nat) (most : Option Nat) (greedy : Bool)
  /-- A group, numbered if what it matches is told apart from what other groups match. -/
  | group (number : Option Nat) (changes : FlagChanges) (body : Tree)
  | concat (parts : List Tree)
  | branches (parts : List Tree)

namespace Tree

/-- Parts that follow each other. -/
def ofParts : List Tree → Tree
  | [] => empty
  | [part] => part
  | parts => concat parts

def ofBranches : List Tree → Tree
  | [part] => part
  | parts => branches parts

/-- Whether a repetition can apply to the part. -/
def repeatable : Tree → Bool
  | empty | flags _ => false
  | _ => true

mutual

/-- How deep the tree nests, classes included. -/
def depth : Tree → Nat
  | empty | flags _ | literal _ | dot | assertion _ | short .. | unicode .. => 0
  | bracketed _ set => 1 + set.depth
  | repetition body .. => 1 + depth body
  | group _ _ body => 1 + depth body
  | concat parts => 1 + depthAll parts
  | branches parts => 1 + depthAll parts

def depthAll : List Tree → Nat
  | [] => 0
  | part :: rest => max (depth part) (depthAll rest)

end

end Tree

end Automata.Pattern
