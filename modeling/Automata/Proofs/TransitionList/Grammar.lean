import Automata.Proofs.Automaton.Tight
import Automata.TransitionList.Reader

/-! # The grammar of transition lists

This module says what a transition list means, independently of how it is read: how bytes fall into
lines and lines into tokens, what tokens name, what the tokens of a line say or what is wrong with
them, and what comes of a whole list (`Outcome`). Nothing is parsed here; lines, tokens and numerals
are described by what they consist of.
-/

namespace Automata.TransitionList

/-! ### Lines and tokens -/

/-- The lines of a sequence of bytes. A line is ended by a line break, which may have one carriage
return before it. What comes after the last line break is a line if there is anything. -/
inductive Lines : Bytes → List Bytes → Prop
  | nil : Lines [] []
  | last {line : Bytes} : line ≠ [] → 10 ∉ line → Lines line [line]
  | lf {line rest : Bytes} {ls : List Bytes} : 10 ∉ line → line.getLast? ≠ some 13 →
      Lines rest ls → Lines (line ++ 10 :: rest) (line :: ls)
  | crlf {line rest : Bytes} {ls : List Bytes} : 10 ∉ line →
      Lines rest ls → Lines (line ++ 13 :: 10 :: rest) (line :: ls)

/-- A text without blanks that is not empty. -/
def Solid (token : Text) : Prop := token ≠ [] ∧ ∀ c ∈ token, isBlank c = false

/-- The tokens of a text, with blanks between them. -/
inductive Tokens : Text → List Text → Prop
  | nil : Tokens [] []
  | blank {c : Char} {rest : Text} {ts : List Text} : isBlank c = true → Tokens rest ts →
      Tokens (c :: rest) ts
  | last {token : Text} : Solid token → Tokens token [token]
  | cons {token rest : Text} {c : Char} {ts : List Text} : Solid token → isBlank c = true →
      Tokens rest ts → Tokens (token ++ c :: rest) (token :: ts)

/-- The bytes of a line encode a text that has the tokens. -/
def HasTokens (line : Bytes) (ts : List Text) : Prop :=
  ∃ t : Text, t.flatMap String.utf8EncodeChar = line ∧ Tokens t ts

/-! ### Names -/

/-- The token is a numeral of the state: decimal digits, perhaps after a plus sign. -/
def NamesState (token : Text) (s : State) : Prop :=
  ∃ digits : Text, (token = digits ∨ token = '+' :: digits) ∧ digits ≠ [] ∧
    (∀ c ∈ digits, c.isDigit = true) ∧ Nat.ofDigitChars 10 digits 0 = s ∧ s ≤ stateLimit

/-- The token is the text of the symbol: the character, or `<eps>`. -/
def NamesSymbol (token : Text) (x : Symbol) : Prop := token = x.text

/-! ### What a line says -/

/-- A number of tokens that no record has. -/
def Irregular (ts : List Text) : Prop := ts.length ≠ 0 ∧ ts.length ≠ 1 ∧ ts.length ≠ 3

/-- What the tokens of a good line say: a record, or nothing. -/
inductive Says (k : Kind) (policy : Policy) : List Text → Option Record → Prop
  | blank : Says k policy [] none
  | final {a : Text} {s : State} : NamesState a s → Says k policy [a] (some (.final s))
  | transition {a b c : Text} {p q : State} {x : Symbol} : NamesState a p → NamesState b q →
      NamesSymbol c x → (k = .dfa → x ≠ .epsilon) →
      Says k policy [a, b, c] (some (.transition ⟨p, x, q⟩))
  | skipped {ts : List Text} : policy = .lenient → Irregular ts → Says k policy ts none

/-- What is wrong with the tokens of a bad line: the first of its faults. -/
inductive Faulty (k : Kind) (policy : Policy) (line : Nat) : List Text → Error → Prop
  | final {a : Text} : (∀ s, ¬ NamesState a s) →
      Faulty k policy line [a] (.invalidStateToken line a)
  | source {a b c : Text} : (∀ s, ¬ NamesState a s) →
      Faulty k policy line [a, b, c] (.invalidStateToken line a)
  | target {a b c : Text} {p : State} : NamesState a p → (∀ s, ¬ NamesState b s) →
      Faulty k policy line [a, b, c] (.invalidStateToken line b)
  | symbol {a b c : Text} {p q : State} : NamesState a p → NamesState b q →
      (∀ x, ¬ NamesSymbol c x) → Faulty k policy line [a, b, c] (.invalidSymbol line c)
  | epsilon {a b c : Text} {p q : State} : k = .dfa → NamesState a p → NamesState b q →
      NamesSymbol c .epsilon → Faulty k policy line [a, b, c] (.epsilonInDfa line)
  | malformed {ts : List Text} : policy = .strict → Irregular ts →
      Faulty k policy line ts (.malformedRecord line ts.length)

/-- A line that says something or nothing. -/
def Good (k : Kind) (policy : Policy) (line : Bytes) (r : Option Record) : Prop :=
  ∃ ts, HasTokens line ts ∧ Says k policy ts r

/-- A line that is no text, or whose tokens are faulty. -/
inductive Bad (k : Kind) (policy : Policy) (number : Nat) (line : Bytes) : Error → Prop
  | text : (∀ ts, ¬ HasTokens line ts) → Bad k policy number line (.storage .invalidText)
  | tokens {ts : List Text} {e : Error} : HasTokens line ts → Faulty k policy number ts e →
      Bad k policy number line e

/-! ### Lists -/

/-- The records of good lines, in order. -/
inductive Records (k : Kind) (policy : Policy) : List Bytes → List Record → Prop
  | nil : Records k policy [] []
  | cons {line : Bytes} {ls : List Bytes} {r : Option Record} {rs : List Record} :
      Good k policy line r → Records k policy ls rs →
      Records k policy (line :: ls) (r.toList ++ rs)

/-- The error of the first bad line, the lines being numbered from `number` on. -/
inductive FirstBad (k : Kind) (policy : Policy) : Nat → List Bytes → Error → Prop
  | here {number : Nat} {line : Bytes} {ls : List Bytes} {e : Error} : Bad k policy number line e →
      FirstBad k policy number (line :: ls) e
  | later {number : Nat} {line : Bytes} {ls : List Bytes} {r : Option Record} {e : Error} :
      Good k policy line r → FirstBad k policy (number + 1) ls e →
      FirstBad k policy number (line :: ls) e

/-- The largest state that the records name, or zero if they name none. -/
def Largest (rs : List Record) (m : Nat) : Prop :=
  (∀ r ∈ rs, r.largest ≤ m) ∧ (m = 0 ∨ ∃ r ∈ rs, r.largest = m)

/-- Why a record cannot be entered into an automaton with `n` states that holds the records before
it: it names a state too many, or a deterministic automaton already moves elsewhere. -/
inductive Refused (k : Kind) (n : Nat) (before : List Record) : Record → Error → Prop
  | final {s : State} : n ≤ s → Refused k n before (.final s) (.invalidState s n)
  | source {t : Transition} : n ≤ t.source →
      Refused k n before (.transition t) (.invalidState t.source n)
  | target {t : Transition} : t.source < n → n ≤ t.target →
      Refused k n before (.transition t) (.invalidState t.target n)
  | conflict {t : Transition} {q : State} : k = .dfa → t.source < n → t.target < n →
      .transition ⟨t.source, t.symbol, q⟩ ∈ before → q ≠ t.target →
      Refused k n before (.transition t) (.conflictingMove t.source t.symbol q t.target)

/-- No record is refused after those before it. -/
def Accepted (k : Kind) (n : Nat) (rs : List Record) : Prop :=
  ∀ before r after, rs = before ++ r :: after → ∀ e, ¬ Refused k n before r e

variable {k : Kind}

/-- The automaton has `n` states, begins in state zero, and consists of the records. -/
structure Holds (n : Nat) (rs : List Record) (a : Automaton k) : Prop where
  stateCount : a.stateCount = n
  initial : a.initial = some 0
  mem_finals : ∀ s, s ∈ a.finals ↔ .final s ∈ rs
  mem_transitions : ∀ t, t ∈ a.transitions ↔ .transition t ∈ rs
  tight : a.Tight

/-- What comes of a list. A bad line decides, whatever the lines before it say. Otherwise there are
as many states as are named, if so many can be counted, and the first record that is refused
decides. If there is none, the automaton of the records results. -/
inductive Outcome (k : Kind) (policy : Policy) (bytes : Bytes) :
    Except Error (Automaton k) → Prop
  | bad {ls : List Bytes} {e : Error} : Lines bytes ls → FirstBad k policy 1 ls e →
      Outcome k policy bytes (.error e)
  | refused {ls : List Bytes} {before after : List Record} {r : Record} {m : Nat} {e : Error} :
      Lines bytes ls → Records k policy ls (before ++ r :: after) →
      Largest (before ++ r :: after) m → Accepted k (min (m + 1) stateLimit) before →
      Refused k (min (m + 1) stateLimit) before r e → Outcome k policy bytes (.error e)
  | done {ls : List Bytes} {rs : List Record} {m : Nat} {a : Automaton k} : Lines bytes ls →
      Records k policy ls rs → Largest rs m → Accepted k (min (m + 1) stateLimit) rs →
      Holds (min (m + 1) stateLimit) rs a → Outcome k policy bytes (.ok a)

end Automata.TransitionList
