import Automata.Symbol
import Automata.Text.Quoted

/-! # Errors

What can go wrong, by cause, and the message of each cause.
-/

namespace Automata

/-- Why a file or a stream of bytes could not be used. -/
inductive StorageError where
  /-- The file does not exist. -/
  | notFound
  /-- A line is not encoded text. -/
  | invalidText
  /-- There is not enough room for what is written. -/
  | outOfSpace
deriving DecidableEq

namespace StorageError

def message : StorageError → String
  | notFound => "No such file or directory (os error 2)"
  | invalidText => "stream did not contain valid UTF-8"
  | outOfSpace => "failed to write the buffered data"

end StorageError

/-- The widths of numbers in the binary form, past the single byte. -/
inductive Width where
  | u32
  | u64
  | u128
  | reserved
deriving DecidableEq

namespace Width

def name : Width → String
  | u32 => "U32"
  | u64 => "U64"
  | u128 => "U128"
  | reserved => "Reserved"

end Width

/-- Why bytes are not the binary form of an automaton. -/
inductive DecodeError where
  /-- The bytes end, and `missing` more were to be read. -/
  | unexpectedEnd (missing : Nat)
  /-- A number is stored wider than its place allows. -/
  | tooWide (expected found : Width)
  /-- The byte that tells whether an initial state follows is neither 0 nor 1. -/
  | invalidOption (found : Nat)
  /-- The number that tells characters from empty moves is neither 0 nor 1. -/
  | invalidSymbol (found : Nat)
  /-- The four bytes read for a character do not encode one. -/
  | invalidCharacter (bytes : List UInt8)
deriving DecidableEq

namespace DecodeError

/-- What is said about a number that selects none of two alternatives. -/
def unexpectedVariant (typeName : String) (found : Nat) : String :=
  s!"UnexpectedVariant \x7b type_name: \"{typeName}\", allowed: Range \x7b min: 0, max: 1 \x7d, " ++
    s!"found: {found} \x7d"

def message : DecodeError → String
  | unexpectedEnd missing => s!"UnexpectedEnd \x7b additional: {missing} \x7d"
  | tooWide expected found =>
      s!"InvalidIntegerType \x7b expected: {expected.name}, found: {found.name} \x7d"
  | invalidOption found => unexpectedVariant "core::option::Option<u32>" found
  | invalidSymbol found => unexpectedVariant "Symbol" found
  | invalidCharacter bytes =>
      let numerals := bytes.map fun b => toString b.toNat
      s!"InvalidCharEncoding([" ++ ", ".intercalate numerals ++ "])"

end DecodeError

/-- Why a pattern has no automaton. -/
inductive PatternError where
  /-- The text is no pattern, or one that can match bytes that are no text. -/
  | malformed
  /-- The pattern looks at word boundaries of all scripts. -/
  | unicodeWordBoundary
deriving DecidableEq

namespace PatternError

def message : PatternError → String
  | malformed => "error building NFA"
  | unicodeWordBoundary =>
      "unsupported regex feature for DFAs: cannot build DFAs for regexes with Unicode word " ++
        "boundaries; switch to ASCII word boundaries, or heuristically enable Unicode word " ++
        "boundaries or use a different regex engine"

end PatternError

/-- Why an operation on automata failed. -/
inductive Error where
  /-- A number is not one of the states. -/
  | invalidState (state stateCount : Nat)
  /-- The initial state is set, and another one was to be. -/
  | initialAlreadySet (current requested : State)
  /-- The automaton has no initial state. -/
  | noInitial
  /-- A deterministic automaton was to get a second target for a state and a symbol. -/
  | conflictingMove (state : State) (symbol : Symbol) (existing target : State)
  /-- An automaton with empty moves was to be determinized. -/
  | epsilonPresent
  /-- A deterministic automaton has an empty move. -/
  | unexpectedEpsilon (state : State)
  /-- A line has neither one token nor three. -/
  | malformedRecord (line tokens : Nat)
  /-- A token does not name a state. -/
  | invalidStateToken (line : Nat) (token : Text)
  /-- A token is not a symbol. -/
  | invalidSymbol (line : Nat) (token : Text)
  /-- A line gives an empty move to a deterministic automaton. -/
  | epsilonInDfa (line : Nat)
  /-- A transition on a blank character was to be written. -/
  | unwritableSymbol (state : State) (symbol : Char)
  /-- A file or a stream could not be used. -/
  | storage (cause : StorageError)
  /-- Bytes are not the binary form of an automaton. -/
  | decode (cause : DecodeError)
  /-- A pattern has no automaton. -/
  | pattern (cause : PatternError)
  /-- What a pattern matches depends on what stands before the text. -/
  | contextDependent
deriving DecidableEq

namespace Error

/-- Whether errors have one cause, whatever states, characters and lines they name. -/
def SameKind (e f : Error) : Prop := e.ctorIdx = f.ctorIdx

def message : Error → String
  | invalidState state stateCount =>
      s!"Invalid state {state}, automaton has {stateCount} states"
  | initialAlreadySet current requested =>
      s!"Initial state is already set to {current}, cannot set it to {requested}"
  | noInitial => "The automaton has no initial state"
  | conflictingMove state symbol existing target =>
      s!"State {state} already moves to {existing} on '{String.ofList symbol.text}', " ++
        s!"cannot add a move to {target}"
  | epsilonPresent =>
      "Cannot determinize an automaton with epsilon transitions, remove them first"
  | unexpectedEpsilon state => s!"State {state} has an epsilon transition in a DFA"
  | malformedRecord line tokens =>
      s!"Malformed record on line {line}: expected 1 or 3 tokens, found {tokens}"
  | invalidStateToken line token =>
      s!"Invalid state id '{String.ofList token}' on line {line}"
  | invalidSymbol line token =>
      s!"Invalid symbol '{String.ofList token}' on line {line}, " ++
        "symbols are single characters or <eps>"
  | epsilonInDfa line => s!"Epsilon transition on line {line} is not allowed in a DFA"
  | unwritableSymbol state symbol =>
      s!"Transition from state {state} on whitespace {String.ofList (Text.quoted symbol)} " ++
        "cannot be written"
  | storage cause => s!"I/O error {cause.message}"
  | decode cause => s!"Failed to decode automaton {cause.message}"
  | pattern cause => s!"Failed to build DFA {cause.message}"
  | contextDependent => "Regex DFA has no anchored universal start state"

end Error

end Automata
