import Automata.Machine.Exploration

/-! # Merging states that behave alike

States of a deterministic transition graph are merged when no sequence of moves tells them apart.
Blocks of states begin with equal marks and are split while two states of a block move to different
blocks.
-/

namespace Automata.Partition

/-- Adds a member to the group of its key, which is made if there is none. -/
def addMember {κ : Type} [DecidableEq κ] (k : κ) (i : Nat) :
    List (κ × List Nat) → List (κ × List Nat)
  | [] => [(k, [i])]
  | (j, members) :: groups =>
      if j = k then (j, i :: members) :: groups else (j, members) :: addMember k i groups

def groupBy {κ : Type} [DecidableEq κ] (key : Nat → κ) (members : List Nat) :
    List (κ × List Nat) :=
  members.foldr (fun i groups => addMember (key i) i groups) []

def blockOf (count : Nat) (blocks : List (List Nat)) : Array Nat :=
  blocks.zipIdx.foldl
    (fun names (members, b) => members.foldl (fun names i => names.set! i b) names)
    (Array.replicate count 0)

/-- Splits each block by the blocks that its states move to. -/
def split (moves : Array (List Nat)) (blocks : List (List Nat)) : List (List Nat) :=
  let names := blockOf moves.size blocks
  blocks.flatMap fun block =>
    (groupBy (fun i => (moves.getD i []).map (names.getD · 0)) block).map Prod.snd

/-- Splits until no block is split. Each round before the last makes a new block, so there are no
more rounds than states. -/
def refine (moves : Array (List Nat)) : Nat → List (List Nat) → List (List Nat)
  | 0, blocks => blocks
  | fuel + 1, blocks =>
      let next := split moves blocks
      if next.length = blocks.length then blocks else refine moves fuel next

/-- The blocks of states that behave alike, given the moves and the mark of each state. -/
def ofMoves {κ : Type} [DecidableEq κ] (moves : Array (List Nat)) (mark : Nat → κ) :
    List (List Nat) :=
  refine moves moves.size ((groupBy mark (List.range moves.size)).map Prod.snd)

end Automata.Partition
