import Automata.Pattern.Tree
import Automata.Text.Quoted
import Automata.Unicode.Name

/-! # Parsing patterns

A pattern is read from left to right by a parser that may fail. Why it fails does not matter: there
is one answer for every text that is no pattern. The parser carries whether blanks and comments are
passed over, how many numbered groups were opened and which group names have been used.

Every recursive parser takes fuel, one unit for each character that it may have to read.
-/

namespace Automata.Pattern

/-- Where a parser stands. -/
structure Cursor where
  rest : Text
  verbose : Bool
  groups : Nat
  names : List Text

/-- A parser that may fail. -/
abbrev Parser (α : Type) := StateT Cursor Option α

namespace Parser

/-! ### Reading characters -/

/-- The text after blanks and comments. A comment runs from a number sign to the end of its line;
`inComment` tells whether the text begins in one. -/
def skipBlanks (inComment : Bool) : Text → Text
  | [] => []
  | c :: rest =>
      if inComment then skipBlanks (c != '\n') rest
      else if isBlank c then skipBlanks false rest
      else if c = '#' then skipBlanks true rest
      else c :: rest

/-- Passes over blanks and comments where they are no part of the pattern. -/
def skip : Parser Unit := modify fun s =>
  if s.verbose then { s with rest := skipBlanks false s.rest } else s

def peek : Parser (Option Char) := return (← get).rest.head?

def take : Parser Char := fun s =>
  match s.rest with
  | [] => none
  | c :: rest => some (c, { s with rest := rest })

/-- Takes the next character and the blanks after it. -/
def takeSkip : Parser Char := do
  let c ← take
  skip
  return c

def expect (c : Char) : Parser Unit := do
  guard ((← take) = c)

def takeText (t : Text) : Parser Bool := do
  let s ← get
  if t.isPrefixOf s.rest then
    set { s with rest := s.rest.drop t.length }
    return true
  else return false

def notAtEnd : Parser Unit := do
  guard (← peek).isSome

/-- The longest run of characters that pass a test, and the text after it. Where blanks are passed
over they are no part of the run and may stand after each of its characters. -/
def spaced (p : Char → Bool) (verbose inComment : Bool) : Text → Text × Text
  | [] => ([], [])
  | c :: rest =>
      if inComment then spaced p verbose (c != '\n') rest
      else if verbose && isBlank c then spaced p verbose false rest
      else if verbose && c == '#' then spaced p verbose true rest
      else if p c then
        let (run, after) := spaced p verbose false rest
        (c :: run, after)
      else ([], c :: rest)

/-- Takes the longest run of characters that pass a test, with blanks after each of them. -/
def takeRun (p : Char → Bool) : Parser Text := do
  let s ← get
  let (run, after) := spaced p s.verbose false s.rest
  set { s with rest := after }
  return run

/-! ### Escapes -/

/-- A part of a pattern that is no group, repetition or bracketed class. -/
inductive Atom where
  | literal (l : Literal)
  | dot
  | assertion (a : Assertion)
  | short (c : ShortClass) (negated : Bool)
  | unicode (q : ClassQuery) (negated : Bool)

def Atom.tree : Atom → Tree
  | literal l => .literal l
  | dot => .dot
  | assertion a => .assertion a
  | short c negated => .short c negated
  | unicode q negated => .unicode q negated

/-- A character that stands for itself as written. -/
def verbatim (c : Char) : Atom := .literal ⟨c, false⟩

def hexValue (c : Char) : Nat :=
  if c.isDigit then c.toNat - '0'.toNat
  else if 'a' ≤ c ∧ c ≤ 'f' then c.toNat - 'a'.toNat + 10
  else c.toNat - 'A'.toNat + 10

def isHexDigit (c : Char) : Bool :=
  c.isDigit || ('a' ≤ c && c ≤ 'f') || ('A' ≤ c && c ≤ 'F')

/-- The character that hexadecimal digits number. -/
def ofHexDigits (digits : Text) : Parser Char := do
  let n := digits.foldl (fun n c => 16 * n + hexValue c) 0
  guard (digits ≠ [] ∧ n.isValidChar)
  return Char.ofNat n

/-- Takes `count` hexadecimal digits, with blanks between them. -/
def hexDigits : Nat → Parser Text
  | 0 => return []
  | count + 1 => do
      let c ← takeSkip
      guard (isHexDigit c)
      return c :: (← hexDigits count)

/-- Reads a character by number; `letter` tells how many digits a number without braces has. Two
digits number a byte. -/
def hexEscape (letter : Char) : Parser Literal := do
  skip
  if (← peek) = some '\x7b' then
    let _ ← takeSkip
    let digits ← takeRun isHexDigit
    expect '\x7d'
    skip
    return ⟨← ofHexDigits digits, false⟩
  else
    let count := if letter = 'x' then 2 else if letter = 'u' then 4 else 8
    let digits ← hexDigits count
    return ⟨← ofHexDigits digits, letter = 'x'⟩

/-- Reads what a class of Unicode is looked up by: a letter, or a name in braces. -/
def classQuery : Parser ClassQuery := do
  skip
  let c ← take
  if c = '\x7b' then
    skip
    let name ← takeRun (· != '\x7d')
    expect '\x7d'
    return .named name
  else
    guard (c ≠ '\\')
    return .letter c

def metaCharacters : Text :=
  ['\\', '.', '+', '*', '?', '(', ')', '|', '[', ']', '\x7b', '\x7d', '^', '$', '#', '&', '-', '~']

/-- Whether a backslash before the character makes it stand for itself. -/
def isEscapable (c : Char) : Bool :=
  metaCharacters.contains c ||
    (c.toNat < 0x80 && !c.isAlphanum && c != '<' && c != '>')

/-- The assertion that a name in braces after `\b` selects. -/
def boundaryNamed (name : Text) : Option Assertion :=
  if name = "start".toList then some .wordStart
  else if name = "end".toList then some .wordEnd
  else if name = "start-half".toList then some .wordStartHalf
  else if name = "end-half".toList then some .wordEndHalf
  else none

/-- Reads what follows `\b`. A brace with a letter or hyphen after it begins the name of a special
boundary; any other brace is left for a repetition. -/
def boundary : Parser Assertion := do
  if (← peek) ≠ some '\x7b' then return .wordBoundary
  let start ← get
  let _ ← takeSkip
  let isNamePart := fun c : Char => c.isAlpha || c == '-'
  let some c ← peek | failure
  if isNamePart c then
    let name ← takeRun isNamePart
    expect '\x7d'
    boundaryNamed name
  else
    set start
    return .wordBoundary

/-- Reads what a backslash begins. -/
def escape : Parser Atom := do
  expect '\\'
  let c ← take
  if c = 'x' ∨ c = 'u' ∨ c = 'U' then return .literal (← hexEscape c)
  else if isEscapable c then return verbatim c
  else
    match c with
    | 'd' => return .short .digit false
    | 'D' => return .short .digit true
    | 's' => return .short .blank false
    | 'S' => return .short .blank true
    | 'w' => return .short .word false
    | 'W' => return .short .word true
    | 'p' => return .unicode (← classQuery) false
    | 'P' => return .unicode (← classQuery) true
    | 'a' => return verbatim '\x07'
    | 'f' => return verbatim '\x0c'
    | 't' => return verbatim '\t'
    | 'n' => return verbatim '\n'
    | 'r' => return verbatim '\r'
    | 'v' => return verbatim '\x0b'
    | 'A' => return .assertion .textStart
    | 'z' => return .assertion .textEnd
    | 'b' => return .assertion (← boundary)
    | 'B' => return .assertion .notWordBoundary
    | '<' => return .assertion .wordStart
    | '>' => return .assertion .wordEnd
    | _ => failure

def atom : Parser Atom := do
  match ← peek with
  | some '\\' => escape
  | some '.' =>
      let _ ← take
      return .dot
  | some '^' =>
      let _ ← take
      return .assertion .lineStart
  | some '$' =>
      let _ ← take
      return .assertion .lineEnd
  | _ => return verbatim (← take)

/-! ### Classes -/

def classNamed (name : Text) : Option NamedClass :=
  [("alnum", NamedClass.alnum), ("alpha", .alpha), ("ascii", .ascii), ("blank", .blank),
    ("cntrl", .cntrl), ("digit", .digit), ("graph", .graph), ("lower", .lower),
    ("print", .print), ("punct", .punct), ("space", .space), ("upper", .upper),
    ("word", .word), ("xdigit", .xdigit)].findSome? fun (n, c) =>
      if n.toList = name then some c else none

def namedClass : Parser ClassSet := do
  expect '['
  expect ':'
  let negated ← takeText ['^']
  let s ← get
  let name := s.rest.takeWhile (· ≠ ':')
  set { s with rest := s.rest.drop name.length }
  expect ':'
  expect ']'
  let c ← classNamed name
  return .named c negated

/-- Takes the hyphens that stand for themselves at the front of a class. -/
def leadingHyphens : Nat → Parser (List ClassSet)
  | 0 => failure
  | fuel + 1 => do
      notAtEnd
      if (← peek) = some '-' then
        let c ← takeSkip
        return .literal ⟨c, false⟩ :: (← leadingHyphens fuel)
      else return []

/-- Reads the opening of a class: the bracket, a caret that negates, and the hyphens or the closing
bracket that stand for themselves at the front. -/
def openClass (fuel : Nat) : Parser (Bool × List ClassSet) := do
  expect '['
  skip
  notAtEnd
  let negated := (← peek) = some '^'
  if negated then
    let _ ← takeSkip
  let items ← leadingHyphens fuel
  if items.isEmpty ∧ (← peek) = some ']' then
    let c ← takeSkip
    notAtEnd
    return (negated, [.literal ⟨c, false⟩])
  else return (negated, items)

/-- The first character after blanks, one number sign being passed over like a blank. -/
def afterBlanks (seenSign : Bool) : Text → Option Char
  | [] => none
  | c :: rest =>
      if isBlank c then afterBlanks seenSign rest
      else if c = '#' ∧ ¬ seenSign then afterBlanks true rest
      else some c

/-- The character that is looked at after the next one to tell a range from a hyphen. -/
def peekAfterHyphen : Parser (Option Char) := do
  let s ← get
  let after := s.rest.tail
  if s.verbose then return (afterBlanks false after).or after.head? else return after.head?

/-- One end of a range, or an item of its own. -/
def classAtom : Parser Atom := do
  if (← peek) = some '\\' then escape else return verbatim (← take)

/-- An atom as an item of a class. Places between characters cannot be items. -/
def classItem : Atom → Parser ClassSet
  | .literal l => return .literal l
  | .short c negated => return .short c negated
  | .unicode q negated => return .unicode q negated
  | .dot | .assertion _ => failure

/-- An atom as an end of a range. -/
def rangeEnd : Atom → Parser Literal
  | .literal l => return l
  | _ => failure

/-- Reads a range, or an item that no hyphen follows. -/
def classRange : Parser ClassSet := do
  let first ← classAtom
  skip
  notAtEnd
  let next ← peekAfterHyphen
  if (← peek) ≠ some '-' ∨ next = some ']' ∨ next = some '-' then classItem first
  else
    let _ ← takeSkip
    notAtEnd
    let first ← rangeEnd first
    let last ← rangeEnd (← classAtom)
    guard (first.char ≤ last.char)
    return .range first last

def classOp : Parser (Option SetOp) := do
  if ← takeText ['&', '&'] then return some .inter
  else if ← takeText ['-', '-'] then return some .diff
  else if ← takeText ['~', '~'] then return some .symmDiff
  else return none

/-- A set with the operator and the set before it, if there are any. -/
def joinLeft (left : Option (SetOp × ClassSet)) (right : ClassSet) : ClassSet :=
  match left with
  | none => right
  | some (op, l) => .binary op l right

/-- Tries a parser and steps back when it fails. -/
def attempt {α : Type} (p : Parser α) : Parser (Option α) := fun s =>
  match p s with
  | some (x, t) => some (some x, t)
  | none => some (none, s)

/-- Reads the rest of a class up to its closing bracket. `left` is what stands before the last
operator and `items` what stands after it. Operators group to the left. -/
def classBody : Nat → Option (SetOp × ClassSet) → List ClassSet → Parser ClassSet
  | 0, _, _ => failure
  | fuel + 1, left, items => do
      skip
      match ← peek with
      | none => failure
      | some '[' =>
          match ← attempt namedClass with
          | some named => classBody fuel left (items ++ [named])
          | none =>
              let (negated, first) ← openClass fuel
              let inner ← classBody fuel none first
              classBody fuel left (items ++ [.bracketed negated inner])
      | some ']' =>
          let _ ← take
          return joinLeft left (.ofItems items)
      | some _ =>
          match ← classOp with
          | some op => classBody fuel (some (op, joinLeft left (.ofItems items))) []
          | none => classBody fuel left (items ++ [← classRange])

/-! ### Groups and flags -/

def flagOf : Char → Option Flag
  | 'i' => some .ignoreCase
  | 'm' => some .multiLine
  | 's' => some .dotAll
  | 'U' => some .swapGreed
  | 'u' => some .unicode
  | 'R' => some .crlf
  | 'x' => some .verbose
  | _ => none

/-- Reads flags up to the colon or bracket after them. A hyphen, at most one, switches off the
flags after it, of which there must be one; no flag may be given twice. -/
def flagChanges (on : Bool) (changes : FlagChanges) : Text → Option (FlagChanges × Text)
  | [] => none
  | c :: rest =>
      if c = ':' ∨ c = ')' then some (changes, c :: rest)
      else if c = '-' then
        if on ∧ rest.head? ≠ some ':' ∧ rest.head? ≠ some ')' then flagChanges false changes rest
        else none
      else
        match flagOf c with
        | none => none
        | some f =>
            if changes.any (·.1 = f) then none else flagChanges on (changes ++ [(f, on)]) rest

/-- Whether a character can stand in the name of a group. -/
def isNameCharacter (first : Bool) (c : Char) : Bool :=
  if first then c == '_' || Unicode.nameStart.contains c.toNat
  else c == '_' || c == '.' || c == '[' || c == ']' || Unicode.namePart.contains c.toNat

/-- Reads the name of a group and the bracket after it. No two groups share a name. -/
def groupName : Parser Unit := do
  let s ← get
  let name := s.rest.takeWhile (· ≠ '>')
  let isName : Bool :=
    match name with
    | [] => false
    | c :: rest => isNameCharacter true c && rest.all (isNameCharacter false)
  guard (isName ∧ name ∉ s.names)
  set { s with rest := s.rest.drop name.length, names := name :: s.names }
  expect '>'

/-- What an opening bracket begins. -/
inductive Opening where
  | flags (changes : FlagChanges)
  | group (number : Option Nat) (changes : FlagChanges)

/-- Opens a numbered group. Groups are numbered in the order of their opening brackets. -/
def numberedGroup : Parser Opening := fun s =>
  some (.group (some s.groups) [], { s with groups := s.groups + 1 })

def namedGroup : Parser Opening := do
  groupName
  numberedGroup

/-- Reads the opening of a group. Groups that look ahead or behind are refused. -/
def opening : Parser Opening := do
  expect '('
  skip
  let s ← get
  let looksAround := [['?', '='], ['?', '!'], ['?', '<', '='], ['?', '<', '!']].any
    fun t => t.isPrefixOf s.rest
  guard (¬ looksAround)
  if ← takeText ['?', 'P', '<'] then namedGroup
  else if ← takeText ['?', '<'] then namedGroup
  else if ← takeText ['?'] then
    let s ← get
    let (changes, after) ← flagChanges true [] s.rest
    set { s with rest := after }
    let closing ← take
    if closing = ')' then
      guard (changes ≠ [])
      return .flags changes
    else return .group none changes
  else numberedGroup

def changeOf (f : Flag) (changes : FlagChanges) : Option Bool := changes.lookup f

/-- Sets whether blanks are passed over from here on. -/
def setVerbose (verbose : Bool) : Parser Unit := modify fun s => { s with verbose := verbose }

/-! ### Repetitions -/

def number : Parser Nat := do
  modify fun s => { s with rest := s.rest.dropWhile isBlank }
  let digits ← takeRun Char.isDigit
  modify fun s => { s with rest := s.rest.dropWhile isBlank }
  let n ← Text.digits? digits
  guard (n ≤ 4294967295)
  return n

def bounds : Parser (Nat × Option Nat) := do
  expect '\x7b'
  skip
  let least ← number
  let most ←
    if (← peek) = some ',' then
      let _ ← takeSkip
      notAtEnd
      if (← peek) = some '\x7d' then pure none else some <$> number
    else pure (some least)
  let closing ← takeSkip
  guard (closing = '\x7d')
  guard (most.all (least ≤ ·))
  return (least, most)

def greedy : Parser Bool := return !(← takeText ['?'])

/-- Reads the operator of a repetition: its bounds and whether it is greedy. -/
def repetition : Parser (Nat × Option Nat × Bool) := do
  match ← peek with
  | some '?' =>
      let _ ← take
      return (0, some 1, ← greedy)
  | some '*' =>
      let _ ← take
      return (0, none, ← greedy)
  | some '+' =>
      let _ ← take
      return (1, none, ← greedy)
  | _ =>
      let (least, most) ← bounds
      return (least, most, ← greedy)

/-! ### Patterns -/

/-- Reads alternatives up to a closing bracket or the end. `done` holds the alternatives already
read and `parts` the parts of the current one. -/
def alternatives : Nat → List Tree → List Tree → Parser Tree
  | 0, _, _ => failure
  | fuel + 1, done, parts => do
      skip
      match ← peek with
      | none | some ')' => return .ofBranches (done ++ [.ofParts parts])
      | some '|' =>
          let _ ← take
          alternatives fuel (done ++ [.ofParts parts]) []
      | some '(' =>
          match ← opening with
          | .flags changes =>
              if let some v := changeOf .verbose changes then setVerbose v
              alternatives fuel done (parts ++ [.flags changes])
          | .group number changes =>
              let outer := (← get).verbose
              setVerbose ((changeOf .verbose changes).getD outer)
              let body ← alternatives fuel [] []
              expect ')'
              setVerbose outer
              alternatives fuel done (parts ++ [.group number changes body])
      | some '[' =>
          let (negated, first) ← openClass fuel
          let set ← classBody fuel none first
          alternatives fuel done (parts ++ [.bracketed negated set])
      | some c =>
          if c = '?' ∨ c = '*' ∨ c = '+' ∨ c = '\x7b' then
            let some operand := parts.getLast? | failure
            guard operand.repeatable
            let (least, most, greedy) ← repetition
            let repeated := Tree.repetition operand least most greedy
            alternatives fuel done (parts.dropLast ++ [repeated])
          else
            let a ← atom
            alternatives fuel done (parts ++ [a.tree])

def nestLimit : Nat := 250

end Parser

/-- The tree of a pattern, when the text is one. -/
def Tree.parse? (t : Text) : Option Tree := do
  let (tree, cursor) ← Parser.alternatives (t.length + 1) [] [] ⟨t, false, 0, []⟩
  if cursor.rest.isEmpty ∧ tree.depth ≤ Parser.nestLimit then some tree else none

end Automata.Pattern
