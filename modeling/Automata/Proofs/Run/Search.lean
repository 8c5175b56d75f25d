import Automata.Proofs.Run.Closure
import Automata.Run.Search

/-! # What a search with a stack finds

A search goes through the states in another order than breadth-first exploration, but what holds of
the expanded and the pending nodes does not speak of an order. So the states taken off the stack are
the expanded ones and the stack holds the pending ones (`Tracks`): meeting states puts the fresh
ones among them on the stack (`foldl_meet`), and taking a state off and following it is one
expansion. Hence no state is put on the stack twice (`nodup_pushed_run`), and when the fuel covers
the states that can be reached, a search ends with an empty stack and has marked exactly these
(`run_of_covers`).
-/

namespace Automata

open Exploration (fresh mem_fresh Explored Reachable Covers)

/-- The order in which nodes are pending does not matter. -/
theorem Exploration.Explored.perm {α : Type} {succ : α → List α}
    {seeds done pending pending' : List α} (h : Explored succ seeds done pending)
    (hPerm : pending.Perm pending') : Explored succ seeds done pending' := by
  have hMem : ∀ a, a ∈ done ++ pending ↔ a ∈ done ++ pending' := fun a =>
    (hPerm.append_left done).mem_iff
  refine ⟨(hPerm.append_left done).nodup_iff.mp h.nodup, fun a ha => ?_, fun a ha => ?_,
    fun a ha b hb => ?_⟩
  · exact (hMem a).mp (h.seeded a ha)
  · exact h.sound a ((hMem a).mpr ha)
  · exact (hMem b).mp (h.expanded a ha b hb)

namespace Search

variable {succ : State → List State} {seeds done : List State} {w : Search}

/-! ### Meeting states -/

theorem foldl_meet (hMarked : ∀ q, q ∈ w.marked ↔ q ∈ w.pushed) (new : List State) :
    (∀ q, q ∈ (new.foldl meet w).marked ↔ q ∈ (new.foldl meet w).pushed) ∧
      (new.foldl meet w).stack = (fresh w.pushed [] new).reverse ++ w.stack ∧
      (new.foldl meet w).pushed = (fresh w.pushed [] new).reverse ++ w.pushed := by
  induction new generalizing w with
  | nil => exact ⟨hMarked, rfl, rfl⟩
  | cons s new ih =>
      rw [List.foldl_cons, fresh, meet]
      by_cases hs : s ∈ w.marked
      · have hKnown : s ∈ w.pushed ∨ s ∈ [] := Or.inl ((hMarked s).mp hs)
        rw [if_pos hs, if_pos hKnown]
        exact ih hMarked
      · have hNew : ¬ (s ∈ w.pushed ∨ s ∈ []) := by
          rw [or_iff_left List.not_mem_nil, ← hMarked]
          exact hs
        have hNext : ∀ q, q ∈ w.marked.insert s ↔ q ∈ s :: w.pushed := fun q => by
          rw [OrderedSet.mem_insert, List.mem_cons, hMarked]
        rw [if_neg hs, if_neg hNew, List.reverse_cons, List.append_assoc, List.append_assoc]
        exact ih hNext

/-! ### The invariant -/

/-- What holds of a search that has taken the states of `done` off the stack. -/
structure Tracks (succ : State → List State) (seeds done : List State) (w : Search) : Prop where
  marked : ∀ q, q ∈ w.marked ↔ q ∈ w.pushed
  pushed : w.pushed.Perm (done ++ w.stack)
  explored : Explored succ seeds done w.stack

theorem tracks_start (succ : State → List State) (seeds : List State) :
    Tracks succ seeds [] (start seeds) := by
  have hNone : ∀ q : State, q ∈ (∅ : StateSet) ↔ q ∈ ([] : List State) := fun _ => Iff.rfl
  obtain ⟨hMarked, hStack, hPushed⟩ := foldl_meet (w := ⟨∅, [], []⟩) hNone seeds
  rw [List.append_nil] at hStack hPushed
  refine ⟨hMarked, ?_, ?_⟩
  · rw [List.nil_append, start, hStack, hPushed]
  · rw [start, hStack]
    exact Exploration.explored_start.perm (List.reverse_perm _).symm

/-- **Following the state on top of the stack is one expansion.** -/
theorem Tracks.step (h : Tracks succ seeds done w) {s : State} {stack : List State}
    (hStack : w.stack = s :: stack) :
    Tracks succ seeds (s :: done) ((succ s).foldl meet { w with stack := stack }) := by
  have hExplored := h.explored
  have hPushed := h.pushed
  rw [hStack] at hExplored hPushed
  obtain ⟨hMarked, hNext, hAll⟩ := foldl_meet (w := { w with stack := stack }) h.marked (succ s)
  -- what was ever on the stack has been taken off or is on it still
  have hKnown : w.pushed.Perm (s :: done ++ stack) := hPushed.trans List.perm_middle
  have hFresh : fresh w.pushed [] (succ s) = fresh (s :: done) stack (succ s) :=
    Exploration.fresh_congr fun q => by
      rw [or_iff_left List.not_mem_nil, hKnown.mem_iff, List.mem_append]
  refine ⟨hMarked, ?_, ?_⟩
  · rw [hAll, hNext]
    refine (hKnown.append_left _).trans ?_
    rw [← List.append_assoc, ← List.append_assoc]
    exact List.perm_append_comm.append_right _
  · rw [hNext, hFresh]
    exact hExplored.expand_head.perm
      (List.perm_append_comm.trans ((List.reverse_perm _).symm.append_right _))

theorem Tracks.nodup_pushed (h : Tracks succ seeds done w) : w.pushed.Nodup :=
  h.pushed.nodup_iff.mpr h.explored.nodup

/-! ### Runs -/

/-- A run keeps the invariant, and with enough fuel it empties the stack. -/
theorem Tracks.run (h : Tracks succ seeds done w) (fuel : Nat) :
    ∃ final, Tracks succ seeds final (run succ fuel w) ∧
      (Covers succ seeds (done.length + fuel) → (Search.run succ fuel w).stack = []) := by
  induction fuel generalizing done w with
  | zero => exact ⟨done, h, h.explored.pending_eq_nil⟩
  | succ fuel ih =>
      cases hStack : w.stack with
      | nil =>
          have hStay : Search.run succ (fuel + 1) w = w := by rw [Search.run, hStack]
          rw [hStay]
          exact ⟨done, h, fun _ => hStack⟩
      | cons s stack =>
          have hGo : Search.run succ (fuel + 1) w =
              Search.run succ fuel ((succ s).foldl meet { w with stack := stack }) := by
            rw [Search.run, hStack]
          have hLength : done.length + (fuel + 1) = (s :: done).length + fuel := by
            rw [List.length_cons, Nat.add_right_comm, Nat.add_assoc]
          rw [hGo, hLength]
          exact ih (h.step hStack)

/-- **No state is put on the stack twice**, however long the search goes on. -/
theorem nodup_pushed_run (succ : State → List State) (seeds : List State) (fuel : Nat) :
    (run succ fuel (start seeds)).pushed.Nodup := by
  obtain ⟨_, hTracks, _⟩ := (tracks_start succ seeds).run fuel
  exact hTracks.nodup_pushed

/-- **A search ends, and has marked the states that can be reached.** Each of them was put on the
stack. -/
theorem run_of_covers {fuel : Nat} (hFuel : Covers succ seeds fuel) :
    (run succ fuel (start seeds)).stack = [] ∧
      ∀ q, (q ∈ (run succ fuel (start seeds)).marked ↔ Reachable succ seeds q) ∧
        (q ∈ (run succ fuel (start seeds)).pushed ↔ Reachable succ seeds q) := by
  obtain ⟨final, hTracks, hEnds⟩ := (tracks_start succ seeds).run fuel
  have hStack := hEnds (by rwa [List.length_nil, Nat.zero_add])
  have hExplored := hTracks.explored
  have hPushed := hTracks.pushed
  rw [hStack] at hExplored hPushed
  rw [List.append_nil] at hPushed
  have hFinal : ∀ q, q ∈ (run succ fuel (start seeds)).pushed ↔ Reachable succ seeds q := fun q =>
    hPushed.mem_iff.trans hExplored.mem_iff_reachable
  exact ⟨hStack, fun q => ⟨(hTracks.marked q).trans (hFinal q), hFinal q⟩⟩

end Search

end Automata
