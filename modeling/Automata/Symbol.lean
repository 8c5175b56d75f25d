import Automata.Ordered.Table
import Automata.Text.Basic

/-! # States and symbols

A transition carries a character or is an empty move, written `<eps>`. Characters are ordered by
their number and the empty move comes after all of them.
-/

namespace Automata

/-- A state, named by a number. -/
abbrev State := Nat

abbrev StateSet := OrderedSet State

/-- The largest number of states, and the largest name of one, that the stored forms can hold. -/
def stateLimit : Nat := 4294967295

/-- The label of a transition: a character, or nothing at all. -/
inductive Symbol where
  | char (c : Char)
  | epsilon
deriving DecidableEq, Inhabited

namespace Symbol

instance : Ranked Symbol where
  rank
    | char c => c.toNat
    | epsilon => 0x110000
  rank_injective {a b} h := by
    have hBound : ∀ c : Char, c.toNat < 0x110000 := fun c => by
      have hValid := c.valid
      simp only [UInt32.isValidChar, Nat.isValidChar] at hValid
      have hEq : c.toNat = c.val.toNat := rfl
      omega
    cases a with
    | char c =>
        cases b with
        | char d => exact congrArg char (Char.toNat_inj.mp h)
        | epsilon => exact absurd h (Nat.ne_of_lt (hBound c))
    | epsilon =>
        cases b with
        | char d => exact absurd h.symm (Nat.ne_of_lt (hBound d))
        | epsilon => rfl

@[simp] theorem rank_char (c : Char) : rank (char c) = c.toNat := rfl

def char? : Symbol → Option Char
  | char c => some c
  | epsilon => none

theorem char?_eq_some_iff {x : Symbol} {c : Char} : x.char? = some c ↔ x = char c := by
  cases x <;> simp [char?]

def isEpsilon : Symbol → Bool
  | char _ => false
  | epsilon => true

def epsilonToken : Text := ['<', 'e', 'p', 's', '>']

/-- A character stands for itself. -/
def text : Symbol → Text
  | char c => [c]
  | epsilon => epsilonToken

/-- The order of symbols: characters by number, then the empty move. -/
def order (a b : Symbol) : Ordering := compare (rank a) (rank b)

end Symbol

end Automata
