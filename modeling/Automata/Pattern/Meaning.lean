import Automata.Pattern.Expression
import Automata.Pattern.Tree
import Automata.Unicode.Folding
import Automata.Unicode.Word

/-! # The meaning of pattern trees

A tree is given its meaning as an expression. Flags are resolved on the way: what they change is
how classes are read, which conditions `^` and `$` stand for, and which repetitions are greedy.

The classes of Unicode, by category, script or property, are a matter of tables that are given from
outside; a pattern that asks for a class that is in none of them has no meaning.
-/

namespace Automata.Pattern

/-! ### Flags -/

/-- The flags in force at a place of a pattern. -/
structure Flags where
  ignoreCase : Bool
  multiLine : Bool
  dotAll : Bool
  swapGreed : Bool
  unicode : Bool
  crlf : Bool
deriving DecidableEq

namespace Flags

/-- The flags at the start of a pattern: classes cover all scripts, and nothing else is on. -/
def initial : Flags := ⟨false, false, false, false, true, false⟩

def set (f : Flags) : Flag × Bool → Flags
  | (.ignoreCase, v) => { f with ignoreCase := v }
  | (.multiLine, v) => { f with multiLine := v }
  | (.dotAll, v) => { f with dotAll := v }
  | (.swapGreed, v) => { f with swapGreed := v }
  | (.unicode, v) => { f with unicode := v }
  | (.crlf, v) => { f with crlf := v }
  | (.verbose, _) => f

def change (f : Flags) (changes : FlagChanges) : Flags := changes.foldl set f

end Flags

/-! ### Classes -/

def NamedClass.set : NamedClass → CharSet
  | alnum => .ofRanges [(0x30, 0x39), (0x41, 0x5A), (0x61, 0x7A)]
  | alpha => .ofRanges [(0x41, 0x5A), (0x61, 0x7A)]
  | ascii => .ascii
  | blank => .ofRanges [(9, 9), (0x20, 0x20)]
  | cntrl => .ofRanges [(0, 0x1F), (0x7F, 0x7F)]
  | digit => .range 0x30 0x39
  | graph => .range 0x21 0x7E
  | lower => .range 0x61 0x7A
  | print => .range 0x20 0x7E
  | punct => .ofRanges [(0x21, 0x2F), (0x3A, 0x40), (0x5B, 0x60), (0x7B, 0x7E)]
  | space => .ofRanges [(9, 13), (0x20, 0x20)]
  | upper => .range 0x41 0x5A
  | word => .asciiWord
  | xdigit => .ofRanges [(0x30, 0x39), (0x41, 0x46), (0x61, 0x66)]

def ShortClass.set (unicode : Bool) : ShortClass → CharSet
  | digit => if unicode then Unicode.digit else NamedClass.digit.set
  | blank => if unicode then Unicode.blank else NamedClass.space.set
  | word => if unicode then Unicode.word else NamedClass.word.set

/-- The members of the classes of Unicode that an engine knows. -/
abbrev ClassTable := ClassQuery → Option CharSet

/-- The tables of an engine that knows none of the classes of Unicode. -/
def ClassTable.none : ClassTable := fun _ => .none

def SetOp.apply : SetOp → CharSet → CharSet → CharSet
  | inter => CharSet.inter
  | diff => CharSet.diff
  | symmDiff => CharSet.symmDiff

namespace Flags

variable (table : ClassTable) (f : Flags)

/-- What classes select from: all characters, or all bytes. -/
def scope : CharSet := if f.unicode then .all else .range 0 0xFF

/-- The set, or what it leaves of the scope. -/
def negateIf (negated : Bool) (s : CharSet) : CharSet :=
  if negated then f.scope.diff s else s

/-- The set closed under case, if case does not matter. -/
def foldIf (s : CharSet) : CharSet :=
  if f.ignoreCase then if f.unicode then s.foldCase else s.foldAsciiCase else s

def textOnly (s : CharSet) : Option CharSet :=
  if f.unicode || s.isAscii then some s else none

/-- The members of a class in brackets that holds a set. Case is folded before the class is
negated. -/
def bracketedSet (negated : Bool) (s : CharSet) : Option CharSet :=
  f.textOnly (f.negateIf negated (f.foldIf s))

def shortSet (c : ShortClass) (negated : Bool) : Option CharSet :=
  f.textOnly (f.negateIf negated (c.set f.unicode))

/-- The members of a class of Unicode. There are none of them where classes hold bytes. -/
def unicodeSet (q : ClassQuery) (negated : Bool) : Option CharSet := do
  guard f.unicode
  f.bracketedSet negated (← table q)

/-- The number of a character in a class. Classes of bytes hold ASCII characters only. -/
def classMember (l : Literal) : Option Nat :=
  if f.unicode || l.char.toNat < 0x80 then some l.char.toNat else none

mutual

/-- The members of what stands in a class. Case is folded before sets are combined, too. -/
def classSet : ClassSet → Option CharSet
  | .empty => some .empty
  | .literal l => do
      let n ← f.classMember l
      return .range n n
  | .range first last =>
      return (CharSet.range (← f.classMember first) (← f.classMember last)).inter .all
  | .named c negated => f.bracketedSet negated c.set
  | .short c negated => f.shortSet c negated
  | .unicode q negated => f.unicodeSet table q negated
  | .bracketed negated set => do f.bracketedSet negated (← classSet set)
  | .union items => classSets items
  | .binary op left right => do
      let left ← classSet left
      let right ← classSet right
      return op.apply (f.foldIf left) (f.foldIf right)

/-- The members of items that stand side by side. -/
def classSets : List ClassSet → Option CharSet
  | [] => some .empty
  | item :: rest => do
      let first ← classSet item
      let others ← classSets rest
      return first.union others

end

/-! ### Leaves -/

/-- The condition that an assertion stands for. -/
def look : Assertion → Look
  | .lineStart =>
      if f.multiLine then if f.crlf then .lineStartCrlf else .lineStart else .textStart
  | .lineEnd => if f.multiLine then if f.crlf then .lineEndCrlf else .lineEnd else .textEnd
  | .textStart => .textStart
  | .textEnd => .textEnd
  | .wordBoundary => .word f.unicode .boundary
  | .notWordBoundary => .word f.unicode .noBoundary
  | .wordStart => .word f.unicode .start
  | .wordEnd => .word f.unicode .finish
  | .wordStartHalf => .word f.unicode .startHalf
  | .wordEndHalf => .word f.unicode .finishHalf

def dotSet : CharSet :=
  if f.dotAll then .all
  else if f.crlf then CharSet.all.diff (.ofRanges [(10, 10), (13, 13)])
  else CharSet.all.diff (.range 10 10)

/-- The characters that a literal matches. Outside classes a byte above ASCII is no text, but a
character above ASCII is. -/
def literalSet (l : Literal) : Option CharSet :=
  if !f.unicode && l.isByte && 0x80 ≤ l.char.toNat then none
  else some (f.foldIf (.single l.char))

/-! ### Trees -/

mutual

/-- The expression of a tree, and the flags in force after it. A group ends the flags set in it. -/
def expression (table : ClassTable) (f : Flags) : Tree → Option (Expr × Flags)
  | .empty => some (.empty, f)
  | .flags changes => some (.empty, f.change changes)
  | .literal l => return (.ofSet f.unicode (← f.literalSet l), f)
  | .dot => if f.unicode then some (.ofSet true f.dotSet, f) else none
  | .assertion a => some (.look (f.look a), f)
  | .short c negated => return (.ofSet f.unicode (← f.shortSet c negated), f)
  | .unicode q negated => return (.ofSet f.unicode (← f.unicodeSet table q negated), f)
  | .bracketed negated set => do
      let s ← f.bracketedSet negated (← f.classSet table set)
      return (.ofSet f.unicode s, f)
  | .repetition body least most greedy => do
      let (e, f) ← expression table f body
      return (.repeated e least most (greedy != f.swapGreed), f)
  | .group number changes body => do
      let (e, _) ← expression table (f.change changes) body
      return (match number with | some n => .group n e | none => e, f)
  | .concat parts => do
      let (es, f) ← expressions table f parts
      return (.ofParts es, f)
  | .branches parts => do
      let (es, f) ← expressions table f parts
      return (.ofBranches es, f)

/-- The expressions of trees that stand one after the other. Flags set in one of them are in force
in those after it, alternatives included. -/
def expressions (table : ClassTable) (f : Flags) : List Tree → Option (List Expr × Flags)
  | [] => some ([], f)
  | tree :: rest => do
      let (e, f) ← expression table f tree
      let (others, f) ← expressions table f rest
      return (e :: others, f)

end

end Flags

/-- The expression of a tree, unless the tree can match bytes that are no text. -/
def Expr.ofTree? (table : ClassTable) (t : Tree) : Option Expr :=
  (Flags.initial.expression table t).map Prod.fst

end Automata.Pattern
