import Automata.Automaton.Basic

/-! # The order of transitions

Transitions are listed by source, then symbol, then target, strictly ascending
(`pairwise_transitions`): rows and entries stand in the order of their tables, and what a target
names comes in ascending order.
-/

namespace Automata

theorem Target.pairwise_toList {k : Kind} (t : k.Target) : (toList t).Pairwise (· < ·) := by
  cases k with
  | nfa => exact t.ascending
  | dfa => exact List.pairwise_singleton ..

/-- The order of transitions: by source, then symbol, then target. -/
def Transition.Before (t u : Transition) : Prop :=
  t.source < u.source ∨ t.source = u.source ∧
    (rank t.symbol < rank u.symbol ∨ t.symbol = u.symbol ∧ t.target < u.target)

namespace Automaton

variable {k : Kind}

/-- **Transitions are listed in ascending order.** -/
theorem pairwise_transitions (a : Automaton k) : a.transitions.Pairwise Transition.Before := by
  rw [transitions, List.pairwise_flatMap]
  refine ⟨fun ⟨s, row⟩ _ => ?_, a.rows.ascending.imp ?_⟩
  · rw [List.pairwise_flatMap]
    refine ⟨fun ⟨x, held⟩ _ => ?_, row.ascending.imp ?_⟩
    · rw [List.pairwise_map]
      exact (Target.pairwise_toList held).imp fun hLt => Or.inr ⟨rfl, Or.inr ⟨rfl, hLt⟩⟩
    · intro p q hSymbols t ht u hu
      obtain ⟨_, _, rfl⟩ := List.mem_map.mp ht
      obtain ⟨_, _, rfl⟩ := List.mem_map.mp hu
      exact Or.inr ⟨rfl, Or.inl hSymbols⟩
  · intro p q hSources t ht u hu
    obtain ⟨_, _, ht⟩ := List.mem_flatMap.mp ht
    obtain ⟨_, _, hu⟩ := List.mem_flatMap.mp hu
    obtain ⟨_, _, rfl⟩ := List.mem_map.mp ht
    obtain ⟨_, _, rfl⟩ := List.mem_map.mp hu
    exact Or.inl hSources

end Automaton

end Automata
