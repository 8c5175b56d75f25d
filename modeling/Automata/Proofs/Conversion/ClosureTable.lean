import Automata.Conversion.Rebuilding
import Automata.Proofs.Automaton.WellFormed
import Automata.Proofs.Run.Acceptance

/-! # The table of closures

Removing empty moves needs the closures of single states again and again, so they can be computed
once and looked up. In a well-formed automaton a transition leads to a state, so its closure stands
in the table, and what is looked up is the closed move (`lookUp_closures`).
-/

namespace Automata.Nfa

variable {n : Nfa}

theorem getElem?_closures {s : State} (hs : s < n.stateCount) :
    n.closures[s]? = some (n.closure [s]) := by
  rw [closures, List.getElem?_map, List.getElem?_range hs, Option.map_some]

theorem mapM_eq_some_map {α β : Type} {f : α → Option β} {g : α → β} {l : List α}
    (h : ∀ x ∈ l, f x = some (g x)) : l.mapM f = some (l.map g) := by
  induction l with
  | nil => rfl
  | cons x l ih =>
      rw [List.mapM_cons, h x (List.mem_cons_self ..),
        ih fun y hy => h y (List.mem_cons_of_mem x hy)]
      rfl

theorem lt_stateCount_of_mem_move (hWf : n.WellFormed) {active : StateSet} {c : Char} {t : State}
    (ht : t ∈ n.move active c) : t < n.stateCount := by
  obtain ⟨p, _, hMove⟩ := mem_move.mp ht
  exact hWf.target _ hMove

theorem lt_length_closures (hWf : n.WellFormed) {active : StateSet} {c : Char} {t : State}
    (ht : t ∈ n.move active c) : t < n.closures.length := by
  rw [closures, List.length_map, List.length_range]
  exact lt_stateCount_of_mem_move hWf ht

/-- **Every closure that a move needs stands in the table.** -/
theorem lookUp_closures (hWf : n.WellFormed) (active : StateSet) (c : Char) :
    lookUp n.closures (n.move active c).toList = some (n.closedMove active c) := by
  have hPlace : ∀ t ∈ (n.move active c).toList, n.closures[t]? = some (n.closure [t]) :=
    fun t ht => getElem?_closures (lt_stateCount_of_mem_move hWf ht)
  rw [lookUp, mapM_eq_some_map hPlace]
  refine congrArg some (OrderedSet.ext fun q => ?_)
  rw [OrderedSet.mem_ofList, List.flatMap_map, List.mem_flatMap, closedMove, mem_closure]
  simp only [← OrderedSet.mem_def, mem_closure_singleton]

end Automata.Nfa
