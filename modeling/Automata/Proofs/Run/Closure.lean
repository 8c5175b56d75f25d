import Automata.Proofs.Machine.Exploration
import Automata.Proofs.Automaton.Path
import Automata.Run.Closure

/-! # The closure holds what empty moves lead to

The closure is an exploration along empty moves. It can find seeds and targets of empty moves only,
so its fuel covers all there is to find, and its members are exactly the states that empty moves
lead to from a seed (`mem_closure`).
-/

namespace Automata.Nfa

variable {n : Nfa}

theorem mem_epsilonTargets_of_mem {p q : State} (h : ⟨p, .epsilon, q⟩ ∈ n.transitions) :
    q ∈ n.epsilonTargets := by
  obtain ⟨row, held, hRow, hHeld, hq⟩ := Automaton.exists_row_of_mem h
  rw [epsilonTargets, List.mem_flatMap]
  refine ⟨(p, row), Table.get?_eq_some_iff.mp hRow, ?_⟩
  simp only [hHeld]
  exact hq

theorem reachable_iff {seeds : List State} {q : State} :
    Exploration.Reachable (n.targets · .epsilon) seeds q ↔ ∃ s ∈ seeds, n.EmptyReach s q := by
  simp only [Exploration.Reachable, Automaton.EmptyReach, Automaton.mem_targets]

/-- The steps of a closure suffice: each state found is a seed or the target of an empty move. -/
theorem covers_closure (n : Nfa) (seeds : List State) :
    Exploration.Covers (n.targets · .epsilon) seeds (seeds.length + n.epsilonTargets.length) := by
  refine Exploration.covers_of_subset (seeds ++ n.epsilonTargets) ?_ ?_
  · intro q hq
    refine hq.mem_of_closed (p := (· ∈ seeds ++ n.epsilonTargets)) ?_ ?_
    · intro s hs
      exact List.mem_append_left _ hs
    · intro p _ r hr
      rw [Automaton.mem_targets] at hr
      exact List.mem_append_right _ (mem_epsilonTargets_of_mem hr)
  · exact Nat.le_of_eq List.length_append

/-- **The closure holds exactly the states that empty moves lead to from a seed.** -/
theorem mem_closure {seeds : List State} {q : State} :
    q ∈ n.closure seeds ↔ ∃ s ∈ seeds, n.EmptyReach s q := by
  rw [closure, OrderedSet.mem_ofList, Exploration.mem_discover (covers_closure n seeds),
    reachable_iff]

theorem mem_closure_singleton {s q : State} : q ∈ n.closure [s] ↔ n.EmptyReach s q := by
  rw [mem_closure]
  simp

/-- A set of states is closed when no empty move leads out of it. -/
def Closed (n : Nfa) (active : StateSet) : Prop :=
  ∀ p ∈ active, ∀ q, n.EmptyReach p q → q ∈ active

theorem closed_closure (n : Nfa) (seeds : List State) : n.Closed (n.closure seeds) := by
  intro p hp q hReach
  obtain ⟨s, hs, hSeed⟩ := mem_closure.mp hp
  exact mem_closure.mpr ⟨s, hs, Relation.ReflTransGen.trans hSeed hReach⟩

end Automata.Nfa
