import Automata.Pattern.Expression

/-! # Programs

A program is a list of numbered steps that matches an expression: take a character of a set, pass a
place where a condition holds, or choose among steps in order of preference. An expression is laid
out from its end to its beginning, so each step knows what comes after it. Where a step is shared
between ways through the program matters: a search meets each step once at a place, and comes to it
by the most preferred way.
-/

namespace Automata.Pattern

/-- A step of a program. -/
inductive Instr where
  | take (s : CharSet) (next : Nat)
  | pass (l : Look) (next : Nat)
  | choose (options : List Nat)
  | accept
deriving Inhabited

/-- Whether a search stops at a step: a choice is only gone through. -/
def Instr.waits : Instr → Bool
  | choose _ => false
  | _ => true

/-- The number of ways to go on from a step, counting one for a step that takes or accepts. -/
def Instr.ways : Instr → Nat
  | choose options => options.length
  | _ => 1

/-- Steps, and the step that a match begins with. -/
structure Program where
  steps : Array Instr
  start : Nat

namespace Program

/-- Laying out steps. -/
abbrev Layout (α : Type) := StateM (Array Instr) α

def emit (i : Instr) : Layout Nat := fun steps => (steps.size, steps.push i)

/-- A choice between going into a body and going past it. -/
def fork (greedy : Bool) (into past : Nat) : Instr :=
  .choose (if greedy then [into, past] else [past, into])

/-- A body laid out `count` times before `next`. -/
def copies (body : Nat → Layout Nat) : Nat → Nat → Layout Nat
  | 0, next => return next
  | count + 1, next => do body (← copies body count next)

/-- A body that may be left out up to `count` times, before `next`. After a time left out there are
no more. -/
def optionals (body : Nat → Layout Nat) (greedy : Bool) (past : Nat) : Nat → Layout Nat
  | 0 => return past
  | count + 1 => do
      let into ← body (← optionals body greedy past count)
      emit (fork greedy into past)

/-- A body that may be gone through again and again, before `next`: the step that chooses between
another time and `next`, and the first step of the body. The choice comes after the body, so its
number is taken before the body is laid out. -/
def loop (body : Nat → Layout Nat) (greedy : Bool) (next : Nat) : Layout (Nat × Nat) := do
  let again ← emit (.choose [])
  let into ← body again
  modify fun steps => steps.set! again (fork greedy into next)
  return (again, into)

/-- A repetition before `next`. `takes` tells that the body always takes a character. A body that
may take none is entered by a choice of its own: the choice after the body is then met on the way
through it, and a step is not met twice at the same place. -/
def repetition (body : Nat → Layout Nat) (takes : Bool) (least : Nat) (most : Option Nat)
    (greedy : Bool) (next : Nat) : Layout Nat := do
  match most with
  | some most => copies body least (← optionals body greedy next (most - least))
  | none =>
      let (again, into) ← loop body greedy next
      match least with
      | 0 => if takes then return again else emit (fork greedy into next)
      | least + 1 => copies body least into

/-- Lays out an expression before `next` and gives its first step. -/
def layOut : Expr → Nat → Layout Nat
  | .empty, next => return next
  | .literal t, next => t.foldrM (fun c next => emit (.take (.single c) next)) next
  | .look l, next => emit (.pass l next)
  | .chars _ s, next => emit (.take s next)
  | .group _ body, next => layOut body next
  | .cat a b, next => do layOut a (← layOut b next)
  | .alt a b, next => do
      let first ← layOut a next
      let second ← layOut b next
      emit (.choose [first, second])
  | .rep body least most greedy, next =>
      repetition (layOut body) body.alwaysTakes least most greedy next

def ofExpr (e : Expr) : Program :=
  let (start, steps) := (do layOut e (← emit .accept) : Layout Nat).run #[]
  ⟨steps, start⟩

def looks (p : Program) : List Look :=
  p.steps.toList.filterMap fun
    | .pass l _ => some l
    | _ => none

def sets (p : Program) : List CharSet :=
  (p.steps.toList.filterMap fun
    | .take s _ => some s
    | _ => none).eraseDups

/-- Whether a step can go on to accept. Only a place at the end of the text may come before. -/
def entersAtEnd (accepting : Nat) : Instr → Bool
  | .take _ next => next ≠ accepting
  | .pass l next => l = .textEnd ∨ next ≠ accepting
  | .choose options => accepting ∉ options
  | .accept => true

/-- Whether matches end only at the end of the text. The first step laid out is the one that
accepts. -/
def endsAtText (p : Program) : Bool :=
  p.start ≠ 0 && p.steps.toList.all (entersAtEnd 0)

/-- Whether a program asks for word characters of all scripts. -/
def hasUnicodeWord (p : Program) : Bool :=
  p.looks.any fun
    | .word unicode _ => unicode
    | _ => false

end Program

end Automata.Pattern
