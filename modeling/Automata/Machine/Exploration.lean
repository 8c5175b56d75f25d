/-! # Breadth-first exploration

Starting from given nodes, every node that the successor lists lead to is found, nearest first. A
node is found once: its place in the result is its place in the order of discovery. The number of
steps is given as fuel; a caller gives at least the number of nodes that can be found.
-/

namespace Automata.Exploration

variable {α : Type} [DecidableEq α]

/-- The elements of the last list that are in neither of the others, each once, in order. -/
def fresh (done pending : List α) : List α → List α
  | [] => []
  | a :: new =>
      if a ∈ done ∨ a ∈ pending then fresh done pending new
      else a :: fresh (a :: done) pending new

theorem mem_fresh {x : α} {done pending new : List α} :
    x ∈ fresh done pending new ↔ x ∈ new ∧ x ∉ done ∧ x ∉ pending := by
  induction new generalizing done with
  | nil => simp [fresh]
  | cons a new ih =>
      rw [fresh]
      by_cases hxa : x = a
      · subst hxa
        by_cases hKnown : x ∈ done ∨ x ∈ pending
        · rw [if_pos hKnown, ih]
          constructor
          · rintro ⟨_, hDone, hPending⟩
            exact absurd hKnown (not_or.mpr ⟨hDone, hPending⟩)
          · rintro ⟨_, hDone, hPending⟩
            exact absurd hKnown (not_or.mpr ⟨hDone, hPending⟩)
        · rw [if_neg hKnown]
          simpa using not_or.mp hKnown
      · split
        · rw [ih, List.mem_cons, or_iff_right hxa]
        · rw [List.mem_cons, ih, List.mem_cons, List.mem_cons, or_iff_right hxa, or_iff_right hxa,
            or_iff_right hxa]

theorem nodup_fresh {done pending new : List α} : (fresh done pending new).Nodup := by
  induction new generalizing done with
  | nil => simp [fresh]
  | cons a new ih =>
      rw [fresh]
      split
      · exact ih
      · exact List.nodup_cons.mpr ⟨fun h => (mem_fresh.mp h).2.1 (List.mem_cons_self ..), ih⟩

/-- Explores on. `done` holds the nodes already expanded, last one first, and `pending` those found
but not yet expanded, in the order of discovery. -/
def explore (succ : α → List α) : Nat → List α → List α → List α
  | 0, done, pending => done.reverse ++ pending
  | _ + 1, done, [] => done.reverse
  | fuel + 1, done, a :: pending =>
      explore succ fuel (a :: done) (pending ++ fresh (a :: done) pending (succ a))

/-- The nodes that can be reached from `seeds`, in the order of discovery. -/
def discover (succ : α → List α) (fuel : Nat) (seeds : List α) : List α :=
  explore succ fuel [] (fresh [] [] seeds)

end Automata.Exploration
